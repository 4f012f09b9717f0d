import PangeaOperator.Lib.JsonText

/-!
# Reading JSON texts

A reader for JSON texts with blanks between the tokens and a bound on the nesting. A text
may be laid out in any way that `Laid` allows; what is read does not depend on it.
-/

namespace PangeaOperator.Json

variable {ν : Type}

def isBlank (c : Char) : Bool := c == ' ' || c == '\n' || c == '\t' || c == '\r'

def skipBlanks (cs : List Char) : List Char := cs.dropWhile isBlank

/-- The characters of a string literal and what follows its closing quote. -/
def readChars : Nat → List Char → Option (List Char × List Char)
  | 0, _ => none
  | _ + 1, [] => none
  | fuel + 1, c :: cs =>
    if c = quote then some ([], cs)
    else do
      let (d, rest) ← unescape (c :: cs)
      let (ds, rest) ← readChars fuel rest
      pure (d :: ds, rest)

def readNumber (number : List Char → Option ν) (cs : List Char) : Option (Json ν × List Char) := do
  let n ← number (cs.takeWhile isNumberChar)
  pure (.num n, cs.dropWhile isNumberChar)

def readWord (word : List Char) (v : Json ν) (cs : List Char) : Option (Json ν × List Char) :=
  if word.isPrefixOf cs then some (v, cs.drop word.length) else none

mutual
/-- A value and what follows it. The fuel bounds the length of the text, `depth` the arrays and
objects that may still be opened. -/
def readValue (number : List Char → Option ν) : Nat → Nat → List Char →
    Option (Json ν × List Char)
  | 0, _, _ => none
  | fuel + 1, depth, cs =>
    match skipBlanks cs with
    | c :: rest =>
      if c = 'n' then readWord ['u', 'l', 'l'] .null rest
      else if c = 't' then readWord ['r', 'u', 'e'] (.bool true) rest
      else if c = 'f' then readWord ['a', 'l', 's', 'e'] (.bool false) rest
      else if c = quote then do
        let (s, rest) ← readChars fuel rest
        pure (.str (String.ofList s), rest)
      else if c = '[' then
        match depth, skipBlanks rest with
        | 0, _ => none
        | _ + 1, ']' :: rest => some (.arr [], rest)
        | depth + 1, rest => do
          let (xs, rest) ← readItems number fuel depth rest
          pure (.arr xs, rest)
      else if c = '\x7b' then
        match depth, skipBlanks rest with
        | 0, _ => none
        | _ + 1, '\x7d' :: rest => some (.obj [], rest)
        | depth + 1, rest => do
          let (ms, rest) ← readMembers number fuel depth rest
          pure (.obj ms, rest)
      else readNumber number (c :: rest)
    | [] => none
/-- One item or more, up to the closing bracket. -/
def readItems (number : List Char → Option ν) : Nat → Nat → List Char →
    Option (List (Json ν) × List Char)
  | 0, _, _ => none
  | fuel + 1, depth, cs => do
    let (x, rest) ← readValue number fuel depth cs
    match skipBlanks rest with
    | ',' :: rest => do
      let (xs, rest) ← readItems number fuel depth rest
      pure (x :: xs, rest)
    | ']' :: rest => pure ([x], rest)
    | _ => none
def readMembers (number : List Char → Option ν) : Nat → Nat → List Char →
    Option (List (String × Json ν) × List Char)
  | 0, _, _ => none
  | fuel + 1, depth, cs => do
    let (m, rest) ← readMember number fuel depth cs
    match skipBlanks rest with
    | ',' :: rest => do
      let (ms, rest) ← readMembers number fuel depth rest
      pure (m :: ms, rest)
    | '\x7d' :: rest => pure ([m], rest)
    | _ => none
def readMember (number : List Char → Option ν) : Nat → Nat → List Char →
    Option ((String × Json ν) × List Char)
  | 0, _, _ => none
  | fuel + 1, depth, cs =>
    match skipBlanks cs with
    | c :: rest =>
      if c = quote then do
        let (k, rest) ← readChars fuel rest
        match skipBlanks rest with
        | ':' :: rest => do
          let (v, rest) ← readValue number fuel depth rest
          pure ((String.ofList k, v), rest)
        | _ => none
      else none
    | [] => none
termination_by structural fuel => fuel
end

/-- A whole text: one value between blanks. -/
def read (number : List Char → Option ν) (depth : Nat) (cs : List Char) : Option (Json ν) := do
  let (v, rest) ← readValue number (cs.length + 1) depth cs
  if (skipBlanks rest).isEmpty then pure v else none

/-! ## Layouts -/

def Blank (b : List Char) : Prop := ∀ c ∈ b, isBlank c = true

mutual
/-- How deep the arrays and objects are nested. -/
def nesting : Json ν → Nat
  | .arr xs => nestingItems xs + 1
  | .obj ms => nestingMembers ms + 1
  | _ => 0
def nestingItems : List (Json ν) → Nat
  | [] => 0
  | x :: xs => max (nesting x) (nestingItems xs)
def nestingMembers : List (String × Json ν) → Nat
  | [] => 0
  | m :: ms => max (nestingMember m) (nestingMembers ms)
def nestingMember : String × Json ν → Nat
  | (_, v) => nesting v
end

mutual
/-- The text shows the value, with any blanks between the tokens. -/
def Laid (text : ν → List Char → Prop) : Json ν → List Char → Prop
  | .null, t => t = ['n', 'u', 'l', 'l']
  | .bool true, t => t = ['t', 'r', 'u', 'e']
  | .bool false, t => t = ['f', 'a', 'l', 's', 'e']
  | .num n, t => text n t
  | .str s, t => t = renderString s
  | .arr [], t => ∃ b, Blank b ∧ t = '[' :: (b ++ [']'])
  | .arr (x :: xs), t => ∃ b u w, Blank b ∧ Laid text x u ∧ LaidItems text xs w ∧
      t = '[' :: (b ++ (u ++ w))
  | .obj [], t => ∃ b, Blank b ∧ t = '\x7b' :: (b ++ ['\x7d'])
  | .obj (m :: ms), t => ∃ b u w, Blank b ∧ LaidMember text m u ∧ LaidMembers text ms w ∧
      t = '\x7b' :: (b ++ (u ++ w))
def LaidItems (text : ν → List Char → Prop) : List (Json ν) → List Char → Prop
  | [], t => ∃ b, Blank b ∧ t = b ++ [']']
  | x :: xs, t => ∃ b b' u w, Blank b ∧ Blank b' ∧ Laid text x u ∧ LaidItems text xs w ∧
      t = b ++ ',' :: (b' ++ (u ++ w))
def LaidMembers (text : ν → List Char → Prop) : List (String × Json ν) → List Char → Prop
  | [], t => ∃ b, Blank b ∧ t = b ++ ['\x7d']
  | m :: ms, t => ∃ b b' u w, Blank b ∧ Blank b' ∧ LaidMember text m u ∧ LaidMembers text ms w ∧
      t = b ++ ',' :: (b' ++ (u ++ w))
def LaidMember (text : ν → List Char → Prop) : String × Json ν → List Char → Prop
  | (k, v), t => ∃ b b' u, Blank b ∧ Blank b' ∧ Laid text v u ∧
      t = renderString k ++ (b ++ ':' :: (b' ++ u))
end

/-! ## What is laid out is read -/

theorem skipBlanks_append {b : List Char} (hb : Blank b) (cs : List Char) :
    skipBlanks (b ++ cs) = skipBlanks cs := by
  unfold skipBlanks
  exact List.dropWhile_append_of_pos hb

theorem skipBlanks_cons {c : Char} (hc : isBlank c = false) (cs : List Char) :
    skipBlanks (c :: cs) = c :: cs := by
  simp [skipBlanks, hc]

theorem head_escapeChar (c : Char) (r : List Char) :
    ∃ d ds, escapeChar c ++ r = d :: ds ∧ d ≠ quote := by
  have hb : backslash ≠ quote := by decide
  unfold escapeChar
  split_ifs with hq
  all_goals first
    | exact ⟨_, _, rfl, hb⟩
    | exact ⟨_, _, rfl, hq⟩

theorem readChars_escaped (cs r : List Char) {fuel : Nat}
    (hf : (cs.flatMap escapeChar).length < fuel) :
    readChars fuel (cs.flatMap escapeChar ++ quote :: r) = some (cs, r) := by
  induction cs generalizing fuel with
  | nil =>
    obtain ⟨fuel, rfl⟩ := Nat.exists_eq_add_one_of_ne_zero (Nat.ne_of_gt hf)
    simp [readChars]
  | cons c cs ih =>
    obtain ⟨fuel, rfl⟩ := Nat.exists_eq_add_one_of_ne_zero (Nat.ne_zero_of_lt hf)
    obtain ⟨d, ds, hds, hd⟩ := head_escapeChar c (cs.flatMap escapeChar ++ quote :: r)
    have hpos : 0 < (escapeChar c).length := by
      rw [List.length_pos_iff]
      intro hnil
      have hu := unescape_escapeChar c []
      rw [hnil] at hu
      cases hu
    rw [List.flatMap_cons, List.length_append] at hf
    rw [List.flatMap_cons, List.append_assoc, hds]
    simp only [readChars, hd, if_false]
    rw [← hds, unescape_escapeChar]
    simp [ih (show (cs.flatMap escapeChar).length < fuel by omega)]

/-- A number's text is read up to where a number stops. -/
structure ReadsNumbers (number : List Char → Option ν) (text : ν → List Char → Prop) : Prop where
  nonempty : ∀ {n t}, text n t → t ≠ []
  chars : ∀ {n t}, text n t → ∀ c ∈ t, isNumberChar c = true
  reads : ∀ {n t}, text n t → number t = some n

section Reads

variable {number : List Char → Option ν} {text : ν → List Char → Prop}
  (hnum : ReadsNumbers number text)
include hnum

theorem readNumber_text {n : ν} {t : List Char} (ht : text n t) {r : List Char} (hr : Stop r) :
    readNumber number (t ++ r) = some (.num n, r) := by
  have hchars := hnum.chars ht
  have htake : (t ++ r).takeWhile isNumberChar = t := by
    rw [List.takeWhile_append_of_pos hchars]
    cases r with
    | nil => simp
    | cons c r => simp [hr c rfl]
  have hdrop : (t ++ r).dropWhile isNumberChar = r := by
    rw [List.dropWhile_append_of_pos hchars]
    cases r with
    | nil => rfl
    | cons c r => simp [hr c rfl]
  simp [readNumber, htake, hdrop, hnum.reads ht]

theorem laid_head {v : Json ν} {t : List Char} (ht : Laid text v t) :
    ∃ c cs, t = c :: cs ∧ isBlank c = false ∧ c ≠ ']' := by
  cases v with
  | null => exact ⟨'n', _, ht, by decide, by decide⟩
  | bool b =>
    cases b with
    | true => exact ⟨'t', _, ht, by decide, by decide⟩
    | false => exact ⟨'f', _, ht, by decide, by decide⟩
  | str s => exact ⟨quote, _, ht, by decide, by decide⟩
  | num n =>
    obtain ⟨c, cs, rfl⟩ := List.exists_cons_of_ne_nil (hnum.nonempty ht)
    have hc := hnum.chars ht c List.mem_cons_self
    refine ⟨c, cs, rfl, ?_, ?_⟩
    · by_contra hb
      simp only [isBlank, Bool.not_eq_false, Bool.or_eq_true, beq_iff_eq] at hb
      rcases hb with ((rfl | rfl) | rfl) | rfl <;> revert hc <;> decide
    · rintro rfl
      revert hc
      decide
  | arr xs =>
    cases xs with
    | nil =>
      obtain ⟨b, -, rfl⟩ := ht
      exact ⟨'[', _, rfl, by decide, by decide⟩
    | cons x xs =>
      obtain ⟨b, u, w, -, -, -, rfl⟩ := ht
      exact ⟨'[', _, rfl, by decide, by decide⟩
  | obj ms =>
    cases ms with
    | nil =>
      obtain ⟨b, -, rfl⟩ := ht
      exact ⟨'\x7b', _, rfl, by decide, by decide⟩
    | cons m ms =>
      obtain ⟨b, u, w, -, -, -, rfl⟩ := ht
      exact ⟨'\x7b', _, rfl, by decide, by decide⟩

omit hnum in
theorem readValue_blanks {b : List Char} (hb : Blank b) (fuel depth : Nat) (cs : List Char) :
    readValue number fuel depth (b ++ cs) = readValue number fuel depth cs := by
  cases fuel with
  | zero => rfl
  | succ fuel => simp only [readValue, skipBlanks_append hb]

omit hnum in
theorem readItems_blanks {b : List Char} (hb : Blank b) (fuel depth : Nat) (cs : List Char) :
    readItems number fuel depth (b ++ cs) = readItems number fuel depth cs := by
  cases fuel with
  | zero => rfl
  | succ fuel => simp only [readItems, readValue_blanks hb]

omit hnum in
theorem readMember_blanks {b : List Char} (hb : Blank b) (fuel depth : Nat) (cs : List Char) :
    readMember number fuel depth (b ++ cs) = readMember number fuel depth cs := by
  cases fuel with
  | zero => rfl
  | succ fuel => simp only [readMember, skipBlanks_append hb]

omit hnum in
theorem readMembers_blanks {b : List Char} (hb : Blank b) (fuel depth : Nat) (cs : List Char) :
    readMembers number fuel depth (b ++ cs) = readMembers number fuel depth cs := by
  cases fuel with
  | zero => rfl
  | succ fuel => simp only [readMembers, readMember_blanks hb]

omit hnum in
/-- Behind blanks or a separator no number goes on. -/
theorem stop_blanks {b : List Char} (hb : Blank b) {c : Char} (hc : isNumberChar c = false)
    (r : List Char) : Stop (b ++ c :: r) := by
  cases b with
  | nil => exact stop_cons hc r
  | cons d b =>
    have hd := hb d List.mem_cons_self
    refine stop_cons ?_ _
    simp only [isBlank, Bool.or_eq_true, beq_iff_eq] at hd
    rcases hd with ((rfl | rfl) | rfl) | rfl <;> decide

/-- A text of the value is read as the value. -/
def Reads (number : List Char → Option ν) (text : ν → List Char → Prop) (v : Json ν) : Prop :=
  ∀ t, Laid text v t → ∀ fuel depth r, t.length ≤ fuel → nesting v ≤ depth → Stop r →
    readValue number (fuel + 1) depth (t ++ r) = some (v, r)

omit hnum in
theorem readItems_laid {x : Json ν} {xs : List (Json ν)}
    (hx : ∀ y ∈ x :: xs, Reads number text y) {u w : List Char} (hu : Laid text x u)
    (hw : LaidItems text xs w) {fuel depth : Nat} (hf : u.length + w.length ≤ fuel)
    (hd : nestingItems (x :: xs) ≤ depth) (r : List Char) :
    readItems number (fuel + 1) depth (u ++ (w ++ r)) = some (x :: xs, r) := by
  induction xs generalizing x u w fuel with
  | nil =>
    obtain ⟨b, hb, rfl⟩ := hw
    simp only [List.length_append, List.length_singleton] at hf
    obtain ⟨fuel, rfl⟩ : ∃ k, fuel = k + 1 := ⟨fuel - 1, by omega⟩
    simp only [nestingItems, Nat.max_zero] at hd
    have hread := hx x List.mem_cons_self u hu fuel depth (b ++ ']' :: r) (by omega) hd
      (stop_blanks hb (by decide) r)
    rw [readItems, List.append_assoc, List.singleton_append, hread]
    simp only [Option.bind_eq_bind, Option.bind_some, skipBlanks_append hb]
    rw [skipBlanks_cons (by decide)]
    rfl
  | cons y ys ih =>
    obtain ⟨b, b', u', w', hb, hb', hu', hw', rfl⟩ := hw
    simp only [List.length_append, List.length_cons] at hf
    obtain ⟨fuel, rfl⟩ : ∃ k, fuel = k + 1 := ⟨fuel - 1, by omega⟩
    obtain ⟨hdx, hds⟩ : nesting x ≤ depth ∧ nestingItems (y :: ys) ≤ depth := by
      rw [nestingItems] at hd
      exact ⟨(Nat.le_max_left _ _).trans hd, (Nat.le_max_right _ _).trans hd⟩
    have hread := hx x List.mem_cons_self u hu fuel depth
      (b ++ ',' :: (b' ++ (u' ++ (w' ++ r)))) (by omega) hdx (stop_blanks hb (by decide) _)
    have hrest := ih (fun z hz => hx z (List.mem_cons_of_mem x hz)) hu' hw'
      (show u'.length + w'.length ≤ fuel by omega) hds
    simp only [List.append_assoc, List.cons_append]
    rw [readItems, hread]
    simp only [Option.bind_eq_bind, Option.bind_some, skipBlanks_append hb]
    rw [skipBlanks_cons (by decide)]
    simp only [readItems_blanks hb', hrest, Option.bind_some]
    rfl

omit hnum in
theorem readMember_laid {m : String × Json ν} (hm : Reads number text m.2) {u : List Char}
    (hu : LaidMember text m u) {fuel depth : Nat} (hf : u.length ≤ fuel + 1)
    (hd : nestingMember m ≤ depth) {r : List Char} (hr : Stop r) :
    readMember number (fuel + 2) depth (u ++ r) = some (m, r) := by
  obtain ⟨k, v⟩ := m
  obtain ⟨b, b', t, hb, hb', ht, rfl⟩ := hu
  simp only [renderString, List.cons_append, List.append_assoc, List.nil_append,
    List.length_cons, List.length_append] at hf ⊢
  have hchars := readChars_escaped k.toList (b ++ ':' :: (b' ++ (t ++ r)))
    (show _ < fuel + 1 by omega)
  have hread := hm t ht fuel depth r (by omega) hd hr
  rw [readMember, skipBlanks_cons (by decide)]
  simp only [if_true, hchars, Option.bind_eq_bind, Option.bind_some, skipBlanks_append hb]
  rw [skipBlanks_cons (by decide)]
  simp only [readValue_blanks hb', hread, Option.bind_some, String.ofList_toList]
  rfl

omit hnum in
theorem laidMember_head {m : String × Json ν} {u : List Char} (hu : LaidMember text m u) :
    ∃ cs, u = quote :: cs := by
  rcases m with ⟨k, v⟩
  rw [LaidMember] at hu
  obtain ⟨b, b', t, -, -, -, rfl⟩ := hu
  exact ⟨_, rfl⟩

omit hnum in
theorem length_laidMember {m : String × Json ν} {u : List Char} (hu : LaidMember text m u) :
    3 ≤ u.length := by
  rcases m with ⟨k, v⟩
  rw [LaidMember] at hu
  obtain ⟨b, b', t, -, -, -, rfl⟩ := hu
  simp only [renderString, List.length_append, List.length_cons, List.length_nil]
  omega

omit hnum in
theorem readMembers_laid {m : String × Json ν} {ms : List (String × Json ν)}
    (hm : ∀ n ∈ m :: ms, Reads number text n.2) {u w : List Char} (hu : LaidMember text m u)
    (hw : LaidMembers text ms w) {fuel depth : Nat} (hf : u.length + w.length ≤ fuel + 2)
    (hd : nestingMembers (m :: ms) ≤ depth) (r : List Char) :
    readMembers number (fuel + 3) depth (u ++ (w ++ r)) = some (m :: ms, r) := by
  induction ms generalizing m u w fuel with
  | nil =>
    obtain ⟨b, hb, rfl⟩ := hw
    simp only [nestingMembers, Nat.max_zero] at hd
    simp only [List.length_append, List.length_singleton] at hf
    have hread := readMember_laid (hm m List.mem_cons_self) hu (show _ ≤ fuel + 1 by omega) hd
      (stop_blanks hb (show isNumberChar '\x7d' = false by decide) r)
    rw [readMembers, List.append_assoc, List.singleton_append, hread]
    simp only [Option.bind_eq_bind, Option.bind_some, skipBlanks_append hb]
    rw [skipBlanks_cons (by decide)]
    rfl
  | cons n ns ih =>
    obtain ⟨b, b', u', w', hb, hb', hu', hw', rfl⟩ := hw
    simp only [List.length_append, List.length_cons] at hf
    have hu2 := length_laidMember hu
    have hu2' := length_laidMember hu'
    obtain ⟨fuel, rfl⟩ : ∃ k, fuel = k + 1 := ⟨fuel - 1, by omega⟩
    obtain ⟨hdm, hds⟩ : nestingMember m ≤ depth ∧ nestingMembers (n :: ns) ≤ depth := by
      rw [nestingMembers] at hd
      exact ⟨(Nat.le_max_left _ _).trans hd, (Nat.le_max_right _ _).trans hd⟩
    have hread := readMember_laid (hm m List.mem_cons_self) hu (show _ ≤ fuel + 1 + 1 by omega) hdm
      (stop_blanks hb (show isNumberChar ',' = false by decide) (b' ++ (u' ++ (w' ++ r))))
    have hrest := ih (fun n' hn' => hm n' (List.mem_cons_of_mem m hn')) hu' hw'
      (show _ ≤ fuel + 2 by omega) hds
    simp only [List.append_assoc, List.cons_append]
    rw [readMembers, hread]
    simp only [Option.bind_eq_bind, Option.bind_some, skipBlanks_append hb]
    rw [skipBlanks_cons (by decide)]
    simp only [readMembers_blanks hb', hrest, Option.bind_some]
    rfl

omit hnum in
theorem readValue_bracket {fuel depth : Nat} {cs rest : List Char} {xs : List (Json ν)}
    (h : (∃ w, skipBlanks cs = ']' :: w ∧ xs = [] ∧ rest = w) ∨
      (∃ c w, skipBlanks cs = c :: w ∧ c ≠ ']' ∧
        readItems number fuel depth (c :: w) = some (xs, rest))) :
    readValue number (fuel + 1) (depth + 1) ('[' :: cs) = some (.arr xs, rest) := by
  have hq : '[' ≠ quote := by decide
  rw [readValue, skipBlanks_cons (by decide)]
  simp only [hq, if_false, if_true, Char.reduceEq]
  rcases h with ⟨w, hw, rfl, rfl⟩ | ⟨c, w, hw, hc, hread⟩
  · rw [hw]
    rfl
  · rw [hw]
    simp [hc, hread]

omit hnum in
theorem readValue_brace {fuel depth : Nat} {cs rest : List Char} {ms : List (String × Json ν)}
    (h : (∃ w, skipBlanks cs = '\x7d' :: w ∧ ms = [] ∧ rest = w) ∨
      (∃ c w, skipBlanks cs = c :: w ∧ c ≠ '\x7d' ∧
        readMembers number fuel depth (c :: w) = some (ms, rest))) :
    readValue number (fuel + 1) (depth + 1) ('\x7b' :: cs) = some (.obj ms, rest) := by
  have hq : '\x7b' ≠ quote := by decide
  rw [readValue, skipBlanks_cons (by decide)]
  simp only [hq, if_false, if_true, Char.reduceEq]
  rcases h with ⟨w, hw, rfl, rfl⟩ | ⟨c, w, hw, hc, hread⟩
  · rw [hw]
    simp
  · rw [hw]
    simp [hc, hread]

theorem reads_arr {xs : List (Json ν)} (ih : ∀ x ∈ xs, Reads number text x) :
    Reads number text (.arr xs) := by
  intro t ht fuel depth r hf hd hr
  obtain ⟨depth, rfl⟩ : ∃ k, depth = k + 1 := ⟨depth - 1, by rw [nesting] at hd; omega⟩
  cases xs with
  | nil =>
    obtain ⟨b, hb, rfl⟩ := ht
    simp only [List.cons_append, List.append_assoc, List.nil_append]
    refine readValue_bracket (.inl ⟨r, ?_, rfl, rfl⟩)
    exact (skipBlanks_append hb _).trans (skipBlanks_cons (by decide) _)
  | cons x xs =>
    obtain ⟨b, u, w, hb, hu, hw, rfl⟩ := ht
    obtain ⟨c, cs, rfl, hc, hne⟩ := laid_head hnum hu
    simp only [List.length_append, List.length_cons] at hf
    obtain ⟨fuel, rfl⟩ : ∃ k, fuel = k + 1 := ⟨fuel - 1, by omega⟩
    have hread := readItems_laid ih hu hw (show _ ≤ fuel by simp only [List.length_cons]; omega)
      (show _ ≤ depth by rw [nesting] at hd; omega) r
    simp only [List.cons_append, List.append_assoc] at hread ⊢
    refine readValue_bracket (.inr ⟨c, _, ?_, hne, hread⟩)
    exact (skipBlanks_append hb _).trans (skipBlanks_cons hc _)

omit hnum in
theorem reads_obj {ms : List (String × Json ν)} (ih : ∀ m ∈ ms, Reads number text m.2) :
    Reads number text (.obj ms) := by
  intro t ht fuel depth r hf hd hr
  obtain ⟨depth, rfl⟩ : ∃ k, depth = k + 1 := ⟨depth - 1, by rw [nesting] at hd; omega⟩
  cases ms with
  | nil =>
    obtain ⟨b, hb, rfl⟩ := ht
    simp only [List.cons_append, List.append_assoc, List.nil_append]
    refine readValue_brace (.inl ⟨r, ?_, rfl, rfl⟩)
    exact (skipBlanks_append hb _).trans (skipBlanks_cons (by decide) _)
  | cons m ms =>
    obtain ⟨b, u, w, hb, hu, hw, rfl⟩ := ht
    have hu3 := length_laidMember hu
    simp only [List.length_append, List.length_cons] at hf
    obtain ⟨fuel, rfl⟩ : ∃ k, fuel = k + 3 := ⟨fuel - 3, by omega⟩
    have hread := readMembers_laid ih hu hw (show _ ≤ fuel + 2 by omega)
      (show _ ≤ depth by rw [nesting] at hd; omega) r
    obtain ⟨cs, rfl⟩ := laidMember_head hu
    simp only [List.cons_append, List.append_assoc] at hread ⊢
    refine readValue_brace (.inr ⟨quote, _, ?_, by decide, hread⟩)
    exact (skipBlanks_append hb _).trans (skipBlanks_cons (by decide) _)

theorem reads_num (n : ν) : Reads number text (.num n) := by
  intro t ht fuel depth r _ _ hr
  have hread := readNumber_text hnum ht hr
  obtain ⟨c, cs, rfl, hc, -⟩ := laid_head hnum ht
  have hnumber := hnum.chars ht c List.mem_cons_self
  have hne : ∀ d, isNumberChar d = false → c ≠ d := by
    rintro d hd rfl
    rw [hnumber] at hd
    cases hd
  rw [List.cons_append] at hread ⊢
  rw [readValue, skipBlanks_cons hc]
  simp only [hne 'n' (by decide), hne 't' (by decide), hne 'f' (by decide),
    hne quote (by decide), hne '[' (by decide), hne '\x7b' (by decide), if_false, hread]

omit hnum in
theorem reads_str (s : String) : Reads number text (.str s) := by
  rintro t rfl fuel depth r hf - -
  have hchars := readChars_escaped s.toList r (show _ < fuel by
    simp only [renderString, List.length_append, List.length_cons] at hf
    omega)
  have hn : quote ≠ 'n' ∧ quote ≠ 't' ∧ quote ≠ 'f' := by decide
  rw [renderString, List.cons_append, List.append_assoc, List.singleton_append, readValue,
    skipBlanks_cons (by decide)]
  simp [hn, hchars]

theorem reads (v : Json ν) : Reads number text v := by
  induction v using induct with
  | null =>
    rintro t rfl fuel depth r - - -
    rfl
  | bool b =>
    cases b with
    | true =>
      rintro t rfl fuel depth r - - -
      rfl
    | false =>
      rintro t rfl fuel depth r - - -
      rfl
  | num n => exact reads_num hnum n
  | str s => exact reads_str s
  | arr xs ih => exact reads_arr hnum ih
  | obj ms ih => exact reads_obj ih

/-- However a value is laid out, its text is read as the value. -/
theorem read_laid {v : Json ν} {t : List Char} {depth : Nat} (ht : Laid text v t)
    (hd : nesting v ≤ depth) : read number depth t = some v := by
  have hread := reads hnum v t ht t.length depth [] le_rfl hd stop_nil
  rw [List.append_nil] at hread
  rw [read, hread]
  rfl

end Reads

end PangeaOperator.Json
