import PangeaOperator.ImportRendering
import PangeaOperator.Lib.Scanner
import PangeaOperator.PgIdent

/-!
# Signatures of errors

`controller/anomaly_tracker.rs`. A signature is a digest of what is left of a message when its
variable parts are stripped, and recurrences are counted by signature. The scan has rules for store
paths, for the paths of workspaces and gems, and for addresses behind `0x`; it has none for the
other parts that its documentation lists.
-/

namespace PangeaOperator.ErrorSignature

open Scanner

def isBase32 (b : Char) : Bool := ('a' ≤ b && b ≤ 'z') || ('0' ≤ b && b ≤ '9')

def isHex (b : Char) : Bool :=
  ('0' ≤ b && b ≤ '9') || ('a' ≤ b && b ≤ 'f') || ('A' ≤ b && b ≤ 'F')

/-- The loops behind the four prefixes. That of a store path skips 32 bytes at most. -/
inductive Mode where
  | hash (left : Fin 33)
  | name
  | hex
  deriving DecidableEq, Repr

def step : Mode → Char → Option Mode
  | .hash left, b =>
    if 0 < left.val ∧ isBase32 b then some (.hash ⟨left.val - 1, by omega⟩) else none
  | .name, b => if b ≠ '/' ∧ b ≠ ' ' ∧ b ≠ '\n' then some .name else none
  | .hex, b => if isHex b then some .hex else none

def storeRule : Rule Char Mode := ⟨"/nix/store/".toList, "<HASH>".toList, .hash 32, by decide⟩

def workspaceRule : Rule Char Mode :=
  ⟨"/var/pangea/workspaces/".toList, "<NAME>".toList, .name, by decide⟩

def gemRule : Rule Char Mode := ⟨"/var/pangea/gems/".toList, "<GEM>".toList, .name, by decide⟩

def addressRule : Rule Char Mode := ⟨"0x".toList, "<HEX>".toList, .hex, by decide⟩

/-- The loop of `strip_variable_parts`. It goes byte by byte and writes each byte as a character;
the bytes of a character beyond ASCII are in no prefix, and the loops behind the prefixes skip
all of them or none. -/
def scanner : Scanner Char Mode where
  rules := [storeRule, workspaceRule, gemRule, addressRule]
  step := step
  copied := pushBytes

def stripVariableParts (errMsg : String) : String := String.ofList (scanner.scan errMsg.toList)

/-- `digest` is `blake3` in hex. -/
def errorSignature (digest : String → String) (errMsg : String) : String :=
  String.ofList ((digest (stripVariableParts errMsg)).toList.take 12)

section Rules

theorem apart : scanner.Apart := by
  have hpatterns : ∀ r ∈ scanner.rules, ∀ q ∈ scanner.rules, ∀ j < 23,
      q.pattern <+: r.pattern.drop j → j = 0 ∧ q.pattern = r.pattern := by decide
  have hlength : ∀ r ∈ scanner.rules, r.pattern.length ≤ 23 := by decide
  have hnodup : (scanner.rules.map Rule.pattern).Nodup := by decide
  intro r hr q hq j hpre
  by_cases hj : j < 23
  · obtain ⟨hzero, heq⟩ := hpatterns r hr q hq j hj hpre
    exact ⟨hzero, List.inj_on_of_nodup_map hnodup hq hr heq⟩
  · have hle := hlength r hr
    rw [List.drop_eq_nil_of_le (by omega), List.prefix_nil] at hpre
    exact absurd hpre q.pattern_ne

/-- The bytes of a character beyond ASCII. -/
theorem le_of_mem_utf8EncodeChar {c : Char} (hc : c.utf8Size ≠ 1) {b : UInt8}
    (hb : b ∈ String.utf8EncodeChar c) : 128 ≤ b.toNat := by
  have hval : ¬ c.val.toNat ≤ 127 := by
    intro hle
    exact hc (Char.utf8Size_eq_one_iff.mpr (UInt32.le_iff_toNat_le.mpr hle))
  rw [String.utf8EncodeChar, if_neg hval] at hb
  split_ifs at hb <;>
    simp only [List.mem_cons, List.not_mem_nil, or_false] at hb <;>
    rcases hb with rfl | rfl | rfl | rfl <;>
    · rw [UInt8.toNat_ofNat']
      omega

theorem le_of_mem_pushBytes {c : Char} (hc : c.utf8Size ≠ 1) {d : Char}
    (hd : d ∈ pushBytes c) : 128 ≤ d.toNat := by
  rw [pushBytes, List.mem_map] at hd
  obtain ⟨b, hb, rfl⟩ := hd
  have hle := le_of_mem_utf8EncodeChar hc hb
  have hlt := b.toNat_lt
  rw [Char.toNat_ofNat, if_pos]
  · exact hle
  · exact Or.inl (by omega)

theorem two_le_length_pushBytes {d : Char} (h : 128 ≤ d.toNat) : 2 ≤ (pushBytes d).length := by
  rw [length_pushBytes]
  have hpos := d.utf8Size_pos
  have hne : d.utf8Size ≠ 1 := by
    intro hone
    have hle := UInt32.le_iff_toNat_le.mp (Char.utf8Size_eq_one_iff.mp hone)
    have hnat : d.val.toNat = d.toNat := rfl
    have hbound : (127 : UInt32).toNat = 127 := rfl
    omega
  omega

theorem marked : Marked scanner where
  tag_ne := by decide
  tag := by
    have htag : ∀ r ∈ scanner.rules, r.tag.all (fun c =>
        c.utf8Size = 1 ∧ ∀ q ∈ scanner.rules, c ∉ q.pattern) = true := by decide
    intro r hr c hc
    have hsize := of_decide_eq_true (List.all_eq_true.mp (htag r hr) c hc)
    exact ⟨(pushBytes_eq_iff c).mpr hsize.1, hsize.2⟩
  copied c := by
    have hascii : ∀ q ∈ scanner.rules, q.pattern.all (·.toNat < 128) = true := by decide
    by_cases hc : c.utf8Size = 1
    · exact .inl ((pushBytes_eq_iff c).mpr hc)
    · have hpos : 0 < (pushBytes c).length := by
        rw [length_pushBytes]
        exact c.utf8Size_pos
      refine .inr ⟨List.length_pos_iff.mp hpos, fun d hd => ?_⟩
      have hle := le_of_mem_pushBytes hc hd
      refine ⟨two_le_length_pushBytes hle, fun q hq hmem => ?_⟩
      have hlt := of_decide_eq_true (List.all_eq_true.mp (hascii q hq) d hmem)
      omega

theorem step_name_eq_some {c : Char} {m : Mode} (h : step .name c = some m) : m = .name := by
  rw [step] at h
  split at h
  · exact (Option.some.inj h).symm
  · cases h

/-- What ends a name is an ASCII character. -/
theorem pushBytes_of_stop {c : Char} (h : step .name c = none) : pushBytes c = [c] := by
  rw [step] at h
  split at h
  · cases h
  · next hc =>
    rw [pushBytes_eq_iff]
    by_contra hsize
    refine hc ⟨?_, ?_, ?_⟩ <;>
    · rintro rfl
      exact hsize (by decide)

/-- The loop behind a workspace or a gem skips what the scan wrote for the name. The others stop
before the bracket. -/
theorem passes : Passes scanner (· = Mode.name) where
  tag r hr hmode cs := by
    have hname : ∀ r ∈ scanner.rules, r.mode = .name →
        r.tag.all (fun c => step .name c = some .name) = true := by decide
    have hstays (c : Char) (hc : c ∈ r.tag) : scanner.step .name c = some .name :=
      of_decide_eq_true (List.all_eq_true.mp (hname r hr hmode) c hc)
    rw [hmode, skip_append_of_stays hstays]
    exact skip_scan_skip (fun c m' => step_name_eq_some) (fun c => pushBytes_of_stop) cs
  stops r hr hmode t := by
    apply skip_eq_self
    intro c hc
    have hstop : ∀ r ∈ scanner.rules, r.mode ≠ .name →
        r.tag.head?.all (fun c => step r.mode c = none) = true := by decide
    have hhead : r.tag.head? = some c := by
      cases htag : r.tag with
      | nil => exact absurd htag (marked.tag_ne r hr)
      | cons d ds =>
        rw [htag] at hc
        exact hc
    have hfirst := hstop r hr hmode
    rw [hhead, Option.all_some] at hfirst
    exact of_decide_eq_true hfirst

end Rules

section Parts

/-- The variable parts that the documentation lists. -/
inductive Part where
  | storeHash | workspaceName | gemName | address | uuid | hexRun | rfc3339 | unixSeconds
  | lineNumber
  deriving DecidableEq, Repr

/-- A `d` stands for a digit, an `h` for a hex digit, any other character for itself. -/
def place (k c : Char) : Bool := if k = 'd' then c.isDigit else if k = 'h' then isHex c else c = k

def shaped : List Char → List Char → Bool
  | [], [] => true
  | k :: shape, c :: cs => place k c && shaped shape cs
  | _, _ => false

def uuidShape : List Char := "hhhhhhhh-hhhh-hhhh-hhhh-hhhhhhhhhhhh".toList

def dateTimeShape : List Char := "dddd-dd-ddTdd:dd:dd".toList

def isZone (v : List Char) : Bool :=
  v = ['Z'] || shaped "+dd:dd".toList v || shaped "-dd:dd".toList v

def isRfc3339 (v : List Char) : Bool :=
  shaped dateTimeShape (v.take 19) && match v.drop 19 with
    | '.' :: rest => rest.takeWhile Char.isDigit ≠ [] && isZone (rest.dropWhile Char.isDigit)
    | zone => isZone zone

def isNameChar (c : Char) : Bool := c ≠ '/' && c ≠ ' ' && c ≠ '\n'

/-- What a part may be filled with. A name is one component of a path and has no blanks. -/
def fits : Part → List Char → Bool
  | .storeHash, v => v.length = 32 && v.all isBase32
  | .workspaceName, v | .gemName, v => v ≠ [] && v.all isNameChar
  | .address, v => v ≠ [] && v.all isHex
  | .uuid, v => shaped uuidShape v
  | .hexRun, v => 8 ≤ v.length && v.all (fun c => c.isDigit || ('a' ≤ c && c ≤ 'f'))
  | .rfc3339, v => isRfc3339 v
  | .unixSeconds, v => v.length = 10 && v.all Char.isDigit
  | .lineNumber, v => v ≠ [] && v.all Char.isDigit

/-- The mode behind a part that a loop skips as a whole, whatever the part is filled with. -/
def pass : Mode → Part → Option Mode
  | .name, _ => some .name
  | .hex, .address | .hex, .hexRun | .hex, .unixSeconds | .hex, .lineNumber => some .hex
  | .hash left, .storeHash =>
    if 32 ≤ left.val then some (.hash ⟨left.val - 32, by omega⟩) else none
  | .hash left, .unixSeconds =>
    if 10 ≤ left.val then some (.hash ⟨left.val - 10, by omega⟩) else none
  | _, _ => none

theorem le_of_isDigit {c : Char} (h : c.isDigit = true) : ('0' ≤ c && c ≤ '9') = true := h

theorem isHex_of_isDigit {c : Char} (h : c.isDigit = true) : isHex c = true := by
  rw [isHex, le_of_isDigit h, Bool.true_or, Bool.true_or]

theorem isBase32_of_isDigit {c : Char} (h : c.isDigit = true) : isBase32 c = true := by
  rw [isBase32, le_of_isDigit h, Bool.or_true]

theorem isHex_of_lower {c : Char} (h : (c.isDigit || ('a' ≤ c && c ≤ 'f')) = true) :
    isHex c = true := by
  rw [Bool.or_eq_true] at h
  rcases h with h | h
  · exact isHex_of_isDigit h
  · rw [isHex, h, Bool.or_true, Bool.true_or]

theorem isNameChar_of {p : Char → Bool} (hp : p '/' = false ∧ p ' ' = false ∧ p '\n' = false)
    {c : Char} (h : p c = true) : isNameChar c = true := by
  have hne (d : Char) (hd : p d = false) : c ≠ d := by
    rintro rfl
    rw [h] at hd
    cases hd
  simp [isNameChar, hne _ hp.1, hne _ hp.2.1, hne _ hp.2.2]

theorem isNameChar_of_isHex {c : Char} (h : isHex c = true) : isNameChar c = true :=
  isNameChar_of (by decide) h

theorem all_of_all {p q : Char → Bool} (hpq : ∀ {c}, p c = true → q c = true) {v : List Char}
    (h : v.all p = true) : v.all q = true :=
  List.all_eq_true.mpr fun c hc => hpq (List.all_eq_true.mp h c hc)

theorem all_isNameChar_of_shaped {shape v : List Char} (hshape : shape.all isNameChar = true)
    (h : shaped shape v = true) : v.all isNameChar = true := by
  induction shape generalizing v with
  | nil =>
    cases v with
    | nil => rfl
    | cons c v => cases h
  | cons k shape ih =>
    cases v with
    | nil => cases h
    | cons c v =>
      rw [shaped, Bool.and_eq_true] at h
      rw [List.all_cons, Bool.and_eq_true] at hshape ⊢
      refine ⟨?_, ih hshape.2 h.2⟩
      have hplace := h.1
      rw [place] at hplace
      split_ifs at hplace
      · exact isNameChar_of_isHex (isHex_of_isDigit hplace)
      · exact isNameChar_of_isHex hplace
      · rw [of_decide_eq_true hplace]
        exact hshape.1

theorem all_isNameChar_of_isZone {v : List Char} (h : isZone v = true) :
    v.all isNameChar = true := by
  rw [isZone, Bool.or_eq_true, Bool.or_eq_true] at h
  rcases h with (h | h) | h
  · rw [of_decide_eq_true h]
    rfl
  · exact all_isNameChar_of_shaped (by decide) h
  · exact all_isNameChar_of_shaped (by decide) h

theorem all_isNameChar_of_isRfc3339 {v : List Char} (h : isRfc3339 v = true) :
    v.all isNameChar = true := by
  rw [isRfc3339, Bool.and_eq_true] at h
  rw [← List.take_append_drop 19 v, List.all_append, all_isNameChar_of_shaped (by decide) h.1,
    Bool.true_and]
  have hrest := h.2
  split at hrest
  · next rest hdrop =>
    rw [Bool.and_eq_true] at hrest
    have hdigits : (rest.takeWhile Char.isDigit).all isNameChar = true :=
      all_of_all (fun hc => isNameChar_of_isHex (isHex_of_isDigit hc)) List.all_takeWhile
    rw [hdrop, List.all_cons, ← List.takeWhile_append_dropWhile (p := Char.isDigit) (l := rest),
      List.all_append, hdigits, all_isNameChar_of_isZone hrest.2]
    rfl
  · exact all_isNameChar_of_isZone hrest

/-- No part has a character that ends a name. -/
theorem all_isNameChar_of_fits {p : Part} {v : List Char} (h : fits p v = true) :
    v.all isNameChar = true := by
  cases p with
  | uuid => exact all_isNameChar_of_shaped (by decide) h
  | rfc3339 => exact all_isNameChar_of_isRfc3339 h
  | storeHash =>
    exact all_of_all (isNameChar_of (p := isBase32) (by decide)) (Bool.and_eq_true_iff.mp h).2
  | address => exact all_of_all isNameChar_of_isHex (Bool.and_eq_true_iff.mp h).2
  | workspaceName => exact (Bool.and_eq_true_iff.mp h).2
  | gemName => exact (Bool.and_eq_true_iff.mp h).2
  | hexRun =>
    exact all_of_all (fun hc => isNameChar_of_isHex (isHex_of_lower hc))
      (Bool.and_eq_true_iff.mp h).2
  | unixSeconds =>
    exact all_of_all (fun hc => isNameChar_of_isHex (isHex_of_isDigit hc))
      (Bool.and_eq_true_iff.mp h).2
  | lineNumber =>
    exact all_of_all (fun hc => isNameChar_of_isHex (isHex_of_isDigit hc))
      (Bool.and_eq_true_iff.mp h).2

theorem skip_name_append {v : List Char} (h : v.all isNameChar = true) (t : List Char) :
    scanner.skip .name (v ++ t) = scanner.skip .name t := by
  refine skip_append_of_stays (fun c hc => ?_) t
  have hname := List.all_eq_true.mp h c hc
  simp only [isNameChar, Bool.and_eq_true, decide_eq_true_eq] at hname
  exact if_pos ⟨hname.1.1, hname.1.2, hname.2⟩

theorem skip_hex_append {v : List Char} (h : v.all isHex = true) (t : List Char) :
    scanner.skip .hex (v ++ t) = scanner.skip .hex t :=
  skip_append_of_stays (fun c hc => if_pos (List.all_eq_true.mp h c hc)) t

theorem skip_hash_append {v : List Char} (h : v.all isBase32 = true) {left left' : Fin 33}
    (hleft : left.val = left'.val + v.length) (t : List Char) :
    scanner.skip (.hash left) (v ++ t) = scanner.skip (.hash left') t := by
  induction v generalizing left with
  | nil => rw [show left = left' from Fin.ext hleft, List.nil_append]
  | cons c v ih =>
    rw [List.all_cons, Bool.and_eq_true] at h
    rw [List.length_cons] at hleft
    have hstep : scanner.step (.hash left) c = some (.hash ⟨left.val - 1, by omega⟩) :=
      if_pos ⟨by omega, h.1⟩
    rw [List.cons_append, skip_of_step hstep]
    refine ih h.2 ?_
    show left.val - 1 = left'.val + v.length
    omega

theorem skip_of_pass (m : Mode) (p : Part) (m' : Mode) (hpass : pass m p = some m')
    (v : List Char) (h : fits p v = true) (t : List Char) :
    scanner.skip m (v ++ t) = scanner.skip m' t := by
  cases m with
  | name =>
    cases hpass
    exact skip_name_append (all_isNameChar_of_fits h) t
  | hex =>
    cases p with
    | address =>
      cases hpass
      exact skip_hex_append (Bool.and_eq_true_iff.mp h).2 t
    | hexRun =>
      cases hpass
      exact skip_hex_append (all_of_all isHex_of_lower (Bool.and_eq_true_iff.mp h).2) t
    | unixSeconds =>
      cases hpass
      exact skip_hex_append (all_of_all isHex_of_isDigit (Bool.and_eq_true_iff.mp h).2) t
    | lineNumber =>
      cases hpass
      exact skip_hex_append (all_of_all isHex_of_isDigit (Bool.and_eq_true_iff.mp h).2) t
    | _ => cases hpass
  | hash left =>
    cases p with
    | storeHash =>
      obtain ⟨hlength, hall⟩ := Bool.and_eq_true_iff.mp h
      rw [pass] at hpass
      split_ifs at hpass with hle
      cases hpass
      apply skip_hash_append hall
      rw [of_decide_eq_true hlength]
      exact (Nat.sub_add_cancel hle).symm
    | unixSeconds =>
      obtain ⟨hlength, hall⟩ := Bool.and_eq_true_iff.mp h
      rw [pass] at hpass
      split_ifs at hpass with hle
      cases hpass
      apply skip_hash_append (all_of_all isBase32_of_isDigit hall)
      rw [of_decide_eq_true hlength]
      exact (Nat.sub_add_cancel hle).symm
    | _ => cases hpass

end Parts

section Samples

def sample (b : Bool) : Part → List Char
  | .storeHash => List.replicate 32 (if b then 'q' else 'z')
  | .workspaceName | .gemName => List.replicate 33 (if b then 'q' else 'z')
  | .address | .hexRun => List.replicate 33 (if b then 'b' else 'd')
  | .uuid => uuidShape.map (fun k => if k = 'h' then (if b then 'b' else 'd') else k)
  | .rfc3339 => (if b then "1111-11-11T11:11:11Z" else "2222-12-22T22:22:22Z").toList
  | .unixSeconds => List.replicate 10 (if b then '1' else '2')
  | .lineNumber => List.replicate 33 (if b then '1' else '2')

theorem fits_sample (b : Bool) (p : Part) : fits p (sample b p) = true := by
  cases b <;> cases p <;> decide

/-- A character that is copied as it is and begins no prefix. -/
def isPlain (c : Char) : Bool :=
  c.utf8Size = 1 ∧ ∀ r ∈ scanner.rules, r.pattern.head? ≠ some c

theorem copied_of_isPlain {c : Char} (h : isPlain c = true) :
    scanner.copied c = [c] ∧ ∀ r ∈ scanner.rules, r.pattern.head? ≠ some c :=
  ⟨(pushBytes_eq_iff c).mpr (of_decide_eq_true h).1, (of_decide_eq_true h).2⟩

theorem scan_of_all_isPlain {u : List Char} (h : u.all isPlain = true) : scanner.scan u = u := by
  have hscan := scan_plain_append (fun c hc => copied_of_isPlain (List.all_eq_true.mp h c hc)) []
  rw [List.append_nil, scan, List.append_nil] at hscan
  exact hscan

/-- What a loop leaves of the samples of a part that it does not skip. -/
theorem samples_differ (o : Option Mode) (p : Part) (ho : o.bind (pass · p) = none) :
    (after scanner o (sample true p)).length = (after scanner o (sample false p)).length ∧
      after scanner o (sample true p) ≠ after scanner o (sample false p) := by
  cases o with
  | none => cases p <;> decide
  | some m =>
    cases m with
    | name => cases ho
    | hex =>
      cases p with
      | address | hexRun | unixSeconds | lineNumber => cases ho
      | _ => decide
    | hash left =>
      revert left
      cases p <;> decide +kernel

theorem telling : Telling sample scanner pass where
  head b p := by
    cases b <;> cases p <;> exact ⟨_, rfl, by decide⟩
  plain b p c hc := by
    have hall : (sample b p).all isPlain = true := by
      cases b <;> cases p <;> decide
    exact copied_of_isPlain (List.all_eq_true.mp hall c hc)
  length o p ho := (samples_differ o p ho).1
  differ o p ho := (samples_differ o p ho).2

end Samples

section Signatures

/-- A digest that tells one text from all others. -/
def telltale (text s : String) : String :=
  String.ofList (List.replicate 64 (if s = text then '0' else '1'))

theorem hexDigest_telltale (text : String) : PgIdent.HexDigest (telltale text) where
  length s := by rw [telltale, String.toList_ofList, List.length_replicate]
  hex s c hc := by
    rw [telltale, String.toList_ofList] at hc
    rw [List.eq_of_mem_replicate hc]
    split <;> decide

theorem errorSignature_telltale (text m : String) : errorSignature (telltale text) m =
    String.ofList (List.replicate 12 (if stripVariableParts m = text then '0' else '1')) := by
  rw [errorSignature, telltale, String.toList_ofList, List.take_replicate]
  rfl

theorem stripVariableParts_eq_of_telltale {m m' : String}
    (h : errorSignature (telltale (stripVariableParts m)) m =
      errorSignature (telltale (stripVariableParts m)) m') :
    stripVariableParts m' = stripVariableParts m := by
  rw [errorSignature_telltale, errorSignature_telltale, if_pos rfl, String.ofList_inj] at h
  by_contra hne
  rw [if_neg hne] at h
  exact absurd h (by decide)

/-- Messages have one signature under every digest just in case the same is left of both. -/
theorem errorSignature_eq_iff (m m' : String) :
    (∀ digest, PgIdent.HexDigest digest → errorSignature digest m = errorSignature digest m') ↔
      stripVariableParts m = stripVariableParts m' := by
  constructor
  · intro h
    exact (stripVariableParts_eq_of_telltale (h _ (hexDigest_telltale _))).symm
  · intro h digest _
    rw [errorSignature, errorSignature, h]

/-- A message with variable parts, anywhere in it. -/
abbrev Skeleton := List (Cell Char Part)

abbrev Fillings (skeleton : Skeleton) (t : List Char) : Prop :=
  Fills (fun p v => fits p v = true) skeleton t

/-- All fillings of the parts have one signature. -/
def IgnoresParts (skeleton : Skeleton) : Prop :=
  ∀ t u, Fillings skeleton t → Fillings skeleton u → ∀ digest, PgIdent.HexDigest digest →
    errorSignature digest (String.ofList t) = errorSignature digest (String.ofList u)

/-- From left to right, every part lies in what a loop behind a prefix skips. -/
abbrev PartsSkipped (skeleton : Skeleton) : Prop := Hides scanner pass none skeleton

theorem stripVariableParts_ofList (t : List Char) :
    stripVariableParts (String.ofList t) = String.ofList (scanner.scan t) := by
  rw [stripVariableParts, String.toList_ofList]

theorem ignoresParts_iff_scan (skeleton : Skeleton) : IgnoresParts skeleton ↔
    ∀ t u, Fillings skeleton t → Fillings skeleton u → scanner.scan t = scanner.scan u := by
  apply forall₂_congr
  intro t u
  apply imp_congr_right
  intro _
  apply imp_congr_right
  intro _
  rw [errorSignature_eq_iff, stripVariableParts_ofList, stripVariableParts_ofList,
    String.ofList_inj]

theorem ignoresParts_iff (skeleton : Skeleton) : IgnoresParts skeleton ↔ PartsSkipped skeleton := by
  rw [ignoresParts_iff_scan]
  exact scan_eq_iff_hides apart telling fits_sample skip_of_pass skeleton

/-- A part that a rule's loop skips is ignored behind the rule's prefix, if what follows ends it. -/
theorem partsSkipped_behind {r : Rule Char Mode} (hr : r ∈ scanner.rules) {p : Part} {m : Mode}
    (hpass : pass r.mode p = some m) {rest : Skeleton} (hrest : PartsSkipped rest)
    (hstop : ∀ c cells, rest = .item c :: cells → step m c = none) :
    PartsSkipped (items r.pattern ++ .part p :: rest) :=
  .rule hr (.part hpass (hrest.stopped hstop))

example : PartsSkipped (items "0x".toList ++ [.part .address, .item '>']) :=
  partsSkipped_behind (r := addressRule) (by simp [scanner]) rfl (.copy (by decide) (.nil none))
    (by rintro c cells ⟨⟩; rfl)

def StripsOnce (m : String) : Prop :=
  stripVariableParts (stripVariableParts m) = stripVariableParts m

/-- The message has no character beyond ASCII, no store path and no `0x`, but in the names of
workspaces and gems. -/
abbrev NamesOnly (m : String) : Prop := scanner.Settled (· = Mode.name) m.toList

theorem stripsOnce_iff_scan (m : String) :
    StripsOnce m ↔ scanner.scan (scanner.scan m.toList) = scanner.scan m.toList := by
  have hstrip : stripVariableParts m = String.ofList (scanner.scan m.toList) := rfl
  rw [StripsOnce, hstrip, stripVariableParts_ofList, String.ofList_inj]

theorem stripsOnce_iff (m : String) : StripsOnce m ↔ NamesOnly m :=
  (stripsOnce_iff_scan m).trans (scan_scan_eq_iff apart marked passes m.toList)

end Signatures

section Recurrences

structure Recurrence where
  signature : String
  count : UInt32
  age : Nat
  deriving DecidableEq, Repr

/-- `InMemoryRecurrenceTracker`: by key and signature, a count and the instant of the first
observation. -/
abbrev Tracker := String × String → Option (UInt32 × Nat)

def observe (inner : Tracker) (key signature : String) (now : Nat) : Recurrence × Tracker :=
  let entry := (inner (key, signature)).getD (0, now)
  (⟨signature, entry.1 + 1, now - entry.2⟩,
    Function.update inner (key, signature) (some (entry.1 + 1, entry.2)))

def peek (inner : Tracker) (key signature : String) (now : Nat) : Option Recurrence :=
  (inner (key, signature)).map (fun entry => ⟨signature, entry.1, now - entry.2⟩)

/-- A failed compile of a template. -/
structure Failure where
  key : String
  errMsg : String
  now : Nat

def observeFailure (digest : String → String) (inner : Tracker) (f : Failure) : Tracker :=
  (observe inner f.key (errorSignature digest f.errMsg) f.now).2

/-- The tracker of a process after its failures. -/
def tracked (digest : String → String) (failures : List Failure) : Tracker :=
  failures.foldl (observeFailure digest) (fun _ => none)

/-- After a message, its stripped text finds a count, whatever else was observed. -/
def CountsOn (m : String) : Prop :=
  ∀ digest, PgIdent.HexDigest digest → ∀ failures : List Failure, ∀ f ∈ failures, f.errMsg = m →
    ∀ now, peek (tracked digest failures) f.key
      (errorSignature digest (stripVariableParts m)) now ≠ none

variable {digest : String → String} {key signature : String}

theorem peek_ne_none_iff {inner : Tracker} {now : Nat} :
    peek inner key signature now ≠ none ↔ inner (key, signature) ≠ none := by
  rw [peek, Ne, Option.map_eq_none_iff]

/-- An observation adds its own entry and drops none. -/
theorem observeFailure_ne_none_iff (inner : Tracker) (f : Failure) :
    observeFailure digest inner f (key, signature) ≠ none ↔
      inner (key, signature) ≠ none ∨
        (f.key = key ∧ errorSignature digest f.errMsg = signature) := by
  rw [observeFailure, observe]
  by_cases heq : (key, signature) = (f.key, errorSignature digest f.errMsg)
  · obtain ⟨rfl, rfl⟩ := Prod.mk.inj heq
    simp
  · have hother : ¬ (f.key = key ∧ errorSignature digest f.errMsg = signature) := by
      rintro ⟨rfl, rfl⟩
      exact heq rfl
    simp only [Function.update_of_ne heq, hother, or_false]

theorem tracked_ne_none_iff (failures : List Failure) :
    tracked digest failures (key, signature) ≠ none ↔
      ∃ f ∈ failures, f.key = key ∧ errorSignature digest f.errMsg = signature := by
  have hfold : ∀ inner : Tracker,
      failures.foldl (observeFailure digest) inner (key, signature) ≠ none ↔
        inner (key, signature) ≠ none ∨
          ∃ f ∈ failures, f.key = key ∧ errorSignature digest f.errMsg = signature := by
    induction failures with
    | nil => simp
    | cons f failures ih =>
      intro inner
      rw [List.foldl_cons, ih, observeFailure_ne_none_iff, or_assoc, List.exists_mem_cons_iff]
  rw [tracked, hfold]
  simp

theorem countsOn_iff (m : String) : CountsOn m ↔ StripsOnce m := by
  constructor
  · intro h
    have hpeek := h (telltale (stripVariableParts m)) (hexDigest_telltale _) [⟨"", m, 0⟩]
      ⟨"", m, 0⟩ (List.mem_singleton.mpr rfl) rfl 0
    rw [peek_ne_none_iff, tracked_ne_none_iff] at hpeek
    obtain ⟨f, hf, -, hsignature⟩ := hpeek
    rw [List.mem_singleton.mp hf] at hsignature
    exact stripVariableParts_eq_of_telltale hsignature
  · intro h digest _ failures f hf hm now
    rw [peek_ne_none_iff, tracked_ne_none_iff]
    refine ⟨f, hf, rfl, ?_⟩
    rw [errorSignature, errorSignature, hm, h]

/-- What signatures ignore: a variable part just in case a loop of the scan skips all of it. A
second strip changes nothing, and the stripped text of a message counts on with it, just in case
names of workspaces and gems are all that the strip replaces and the rest of it is ASCII. -/
theorem errorSignature_ignores_iff (skeleton : Skeleton) (m : String) :
    (IgnoresParts skeleton ↔ PartsSkipped skeleton) ∧
      (StripsOnce m ↔ NamesOnly m) ∧ (CountsOn m ↔ NamesOnly m) :=
  ⟨ignoresParts_iff skeleton, stripsOnce_iff m, (countsOn_iff m).trans (stripsOnce_iff m)⟩

/-- Line numbers show in a signature, and the placeholder of an address is written again. -/
theorem shows_lineNumber_and_strips_again :
    ¬ IgnoresParts (items "line ".toList ++ [.part .lineNumber]) ∧ ¬ StripsOnce "0x1f" ∧
      ¬ CountsOn "0x1f" := by
  have hagain : ¬ StripsOnce "0x1f" := by
    have htext : "0x1f".toList = addressRule.pattern ++ "1f".toList := by decide
    have hmem : addressRule ∈ scanner.rules := by simp [scanner]
    have hskip : scanner.skip addressRule.mode "1f".toList = [] := by decide
    have hnil : scanner.scan [] = [] := by rw [scan]
    rw [stripsOnce_iff_scan, htext,
      scan_scan_rule_of_stops apart marked passes hmem (by decide), scan_rule apart hmem, hskip,
      hnil, hnil]
    decide
  refine ⟨?_, hagain, fun h => hagain ((countsOn_iff "0x1f").mp h)⟩
  rw [ignoresParts_iff_scan]
  intro h
  have hfill (v : List Char) (hv : fits .lineNumber v = true) :
      Fillings (items "line ".toList ++ [.part .lineNumber]) ("line ".toList ++ v) := by
    rw [← List.append_nil v]
    exact Fills.items_append (.part hv .nil)
  have hsame := h _ _ (hfill "4".toList (by decide)) (hfill "5".toList (by decide))
  rw [scan_of_all_isPlain (by decide), scan_of_all_isPlain (by decide)] at hsame
  exact absurd hsame (by decide)

end Recurrences

end PangeaOperator.ErrorSignature
