import PangeaOperator.Import

/-!
# Import ids out of templates

What the two substitutions of an import id make of a template, read as the tokens it closes,
the characters between them and an unclosed rest. They share one loop, which copies byte by
byte, and differ on a variable that is null.
-/

namespace PangeaOperator

open Json

/-- A part of a template: a character outside of tokens, or what a closed token has inside. -/
inductive Piece where
  | char (c : Char)
  | token (inner : List Char)
  deriving DecidableEq, Repr

namespace Piece

def text : Piece → List Char
  | char c => [c]
  | token inner => '{' :: '{' :: inner ++ ['}', '}']

end Piece

/-- The pieces of a text, and what is left from a token on that is not closed. -/
def scanPieces : Nat → List Char → List Piece × List Char
  | fuel + 1, '{' :: '{' :: cs =>
    match splitClose cs with
    | none => ([], '{' :: '{' :: cs)
    | some (inner, rest) => (.token inner :: (scanPieces fuel rest).1, (scanPieces fuel rest).2)
  | fuel + 1, c :: cs => (.char c :: (scanPieces fuel cs).1, (scanPieces fuel cs).2)
  | _, _ => ([], [])

namespace Piece

/-- The name that a closed token looks up. -/
def name : Piece → Option String
  | char _ => none
  | token inner => some (String.ofList (tokenName inner))

end Piece

def tokenNames (ps : List Piece) : List String := ps.filterMap Piece.name

/-- A renderer that fails on the names it has no text for. -/
def renderOf (text : String → Option String) (name : String) : Except String String :=
  match text name with
  | some value => .ok value
  | none => .error name

section Loop

variable (text : String → Option String)

/-- The output with every token replaced, and the characters between them under `push`. -/
def rendered (push : Char → List Char) (ps : List Piece) : List Char :=
  ps.flatMap (fun p => match p with
    | .char c => push c
    | .token inner => ((text (String.ofList (tokenName inner))).getD "").toList)

/-- The loop stops at the first token that has no text, and copies the rest as it is. -/
theorem substituteTokens_eq (fuel : Nat) (cs : List Char) :
    substituteTokens (renderOf text) fuel cs =
      match (tokenNames (scanPieces fuel cs).1).find? (fun name => text name = none) with
      | some name => .error name
      | none => .ok (rendered text pushBytes (scanPieces fuel cs).1 ++ (scanPieces fuel cs).2) := by
  fun_induction scanPieces fuel cs with
  | case1 fuel cs hclose => simp [substituteTokens, hclose, tokenNames, rendered]
  | case2 fuel cs inner rest hclose ih =>
    simp only [substituteTokens, hclose, ih, renderOf, tokenNames, List.filterMap_cons, Piece.name,
      List.find?_cons]
    cases hvalue : text (String.ofList (tokenName inner)) with
    | none => simp; rfl
    | some value =>
      simp only [reduceCtorEq, decide_false]
      cases ((scanPieces fuel rest).1.filterMap Piece.name).find?
          (fun name => decide (text name = none)) with
      | none => simp [rendered, hvalue, bind, Except.bind]
      | some name => rfl
  | case3 fuel c cs hnot ih =>
    simp only [substituteTokens, ih, tokenNames, List.filterMap_cons, Piece.name]
    cases ((scanPieces fuel cs).1.filterMap Piece.name).find?
        (fun name => decide (text name = none)) with
    | none => simp [rendered, bind, Except.bind]
    | some name => rfl
  | case4 fuel cs hopen hcons =>
    cases fuel with
    | zero => cases cs <;> rfl
    | succ fuel =>
      cases cs with
      | nil => rfl
      | cons c cs => exact absurd rfl (hcons fuel c cs rfl)

theorem rendered_char (push : Char → List Char) (c : Char) (ps : List Piece) :
    rendered text push (.char c :: ps) = push c ++ rendered text push ps := rfl

theorem rendered_token (push : Char → List Char) (inner : List Char) (ps : List Piece) :
    rendered text push (.token inner :: ps) =
      ((text (String.ofList (tokenName inner))).getD "").toList ++ rendered text push ps := rfl

theorem rendered_congr {text text' : String → Option String} {push : Char → List Char}
    {ps : List Piece} (h : ∀ name ∈ tokenNames ps, text name = text' name) :
    rendered text push ps = rendered text' push ps := by
  induction ps with
  | nil => rfl
  | cons p ps ih =>
    cases p with
    | char c => rw [rendered_char, rendered_char, ih h]
    | token inner =>
      have hname := h _ List.mem_cons_self
      rw [rendered_token, rendered_token, hname, ih (fun name hn => h name (.tail _ hn))]

theorem length_pushBytes (c : Char) : (pushBytes c).length = c.utf8Size := by simp [pushBytes]

/-- A character comes through the bytes as it is if it is one of the first 128. -/
theorem pushBytes_eq_iff (c : Char) : pushBytes c = [c] ↔ c.utf8Size = 1 := by
  constructor
  · intro h
    rw [← length_pushBytes, h, List.length_singleton]
  · intro h
    have hval : c.toNat ≤ 127 := by
      simpa using UInt32.le_iff_toNat_le.mp (Char.utf8Size_eq_one_iff.mp h)
    have hbyte : c.val.toUInt8.toNat = c.toNat := by
      rw [UInt32.toNat_toUInt8, Char.toNat_val, Nat.mod_eq_of_lt (by omega)]
    rw [pushBytes, String.utf8EncodeChar_eq_singleton h, List.map_singleton, hbyte]
    simp

theorem length_rendered_le (ps : List Piece) :
    (rendered text (fun c => [c]) ps).length ≤ (rendered text pushBytes ps).length := by
  induction ps with
  | nil => exact Nat.le_refl _
  | cons p ps ih =>
    cases p with
    | char c =>
      have hpos := c.utf8Size_pos
      simp only [rendered_char, List.length_append, length_pushBytes, List.length_singleton]
      omega
    | token inner =>
      simp only [rendered_token, List.length_append]
      omega

/-- The bytes of a character outside of the first 128 make the output longer than it should be. -/
theorem rendered_pushBytes_eq_iff (ps : List Piece) :
    rendered text pushBytes ps = rendered text (fun c => [c]) ps ↔
      ∀ c, .char c ∈ ps → c.utf8Size = 1 := by
  induction ps with
  | nil => simp [rendered]
  | cons p ps ih =>
    cases p with
    | token inner =>
      rw [rendered_token, rendered_token, List.append_cancel_left_eq, ih]
      simp
    | char c =>
      rw [rendered_char, rendered_char]
      constructor
      · intro h
        have hlength := congrArg List.length h
        have hle := length_rendered_le text ps
        have hpos := c.utf8Size_pos
        simp only [List.length_append, length_pushBytes, List.length_singleton] at hlength
        have hsize : c.utf8Size = 1 := by omega
        rw [(pushBytes_eq_iff c).mpr hsize, List.append_cancel_left_eq, ih] at h
        intro d hd
        rcases List.mem_cons.mp hd with he | hd
        · cases he
          exact hsize
        · exact h d hd
      · intro h
        rw [(pushBytes_eq_iff c).mpr (h c List.mem_cons_self),
          ih.mpr (fun d hd => h d (List.mem_cons_of_mem _ hd))]

end Loop

section Renderers

variable (valueText : Doc → String) (template : String) (planned : Doc) (variables' : StrMap Doc)

def templatePieces : List Piece := (scanPieces template.length template.toList).1

/-- What follows the last closed token from one on that is not closed. -/
def templateRest : List Char := (scanPieces template.length template.toList).2

def isPlannedName (name : String) : Bool := "planned.".toList.isPrefixOf name.toList

/-- What a token's name stands for: an attribute of the plan, or a variable. -/
def namedValue (name : String) : Option Doc :=
  if isPlannedName name then
    planned.get? (String.ofList (trimMatches isWhitespace (name.toList.drop 8)))
  else variables'.get? name

/-- The text of a value that is there and not null. -/
def presentText : Option Doc → Option String
  | none | some .null => none
  | some v => some (idText valueText v)

theorem presentText_eq_none_iff (v : Option Doc) :
    presentText valueText v = none ↔ v = none ∨ v = some .null := by
  unfold presentText
  split <;> simp_all

/-- A substitution told by its tokens: the first one that has no text is its error. -/
theorem substitute_eq (text : String → Option String) :
    substitute (renderOf text) template =
      match (tokenNames (templatePieces template)).find? (fun name => text name = none) with
      | some name => .error name
      | none => .ok (String.ofList
          (rendered text pushBytes (templatePieces template) ++ templateRest template)) := by
  rw [substitute, substituteTokens_eq, templatePieces, templateRest]
  split <;> rfl

theorem substituteImportId_eq :
    substituteImportId valueText template variables' =
      substitute (renderOf (fun name => (variables'.get? name).map (idText valueText)))
        template := by
  rw [substituteImportId]
  congr 1
  funext name
  simp only [renderOf]
  cases variables'.get? name <;> rfl

theorem substituteWithPlanned_eq :
    substituteWithPlanned valueText template planned variables' =
      substitute (renderOf (fun name =>
        presentText valueText (namedValue planned variables' name))) template := by
  rw [substituteWithPlanned]
  congr 1
  funext name
  have hvalue (v : Option Doc) : (match v with
      | none | some .null => Except.error name
      | some v => Except.ok (idText valueText v)) =
        renderOf (fun _ => presentText valueText v) name := by
    unfold renderOf presentText
    split <;> simp_all
  exact hvalue (namedValue planned variables' name)

/-- The names of a template's closed tokens, in order. -/
def templateNames : List String := tokenNames (templatePieces template)

/-- The template with each closed token replaced by the text of its value. -/
def replacedTemplate : String :=
  String.ofList (rendered (fun name => presentText valueText (namedValue planned variables' name))
    (fun c => [c]) (templatePieces template) ++ templateRest template)

/-- The documented rendering, of both substitutions. -/
structure RendersExactly : Prop where
  succeeds : (∃ out, substituteWithPlanned valueText template planned variables' = .ok out) ↔
    ∀ name ∈ templateNames template,
      presentText valueText (namedValue planned variables' name) ≠ none
  output : ∀ out, substituteWithPlanned valueText template planned variables' = .ok out →
    out = replacedTemplate valueText template planned variables'
  agrees : (∀ name ∈ templateNames template, isPlannedName name = false) →
    substituteImportId valueText template variables' =
      substituteWithPlanned valueText template planned variables'

/-- The first name of a template that has no value to write. -/
def firstUnresolved : Option String :=
  (templateNames template).find? (fun name =>
    presentText valueText (namedValue planned variables' name) = none)

theorem firstUnresolved_eq_none_iff :
    firstUnresolved valueText template planned variables' = none ↔
      ∀ name ∈ templateNames template,
        presentText valueText (namedValue planned variables' name) ≠ none := by
  simp [firstUnresolved]

theorem substituteWithPlanned_eq_error {name : String}
    (h : firstUnresolved valueText template planned variables' = some name) :
    substituteWithPlanned valueText template planned variables' = .error name := by
  rw [firstUnresolved, templateNames] at h
  rw [substituteWithPlanned_eq, substitute_eq, h]

theorem substituteWithPlanned_eq_ok
    (h : firstUnresolved valueText template planned variables' = none) :
    substituteWithPlanned valueText template planned variables' = .ok (String.ofList
      (rendered (fun name => presentText valueText (namedValue planned variables' name)) pushBytes
        (templatePieces template) ++ templateRest template)) := by
  rw [firstUnresolved, templateNames] at h
  rw [substituteWithPlanned_eq, substitute_eq, h]

/-- Where it succeeds, the output is the replaced template if the characters between the tokens
are ASCII. -/
theorem output_eq_replacedTemplate_iff
    (h : firstUnresolved valueText template planned variables' = none) :
    substituteWithPlanned valueText template planned variables' =
        .ok (replacedTemplate valueText template planned variables') ↔
      ∀ c, .char c ∈ templatePieces template → c.utf8Size = 1 := by
  rw [substituteWithPlanned_eq_ok _ _ _ _ h, replacedTemplate, Except.ok.injEq,
    String.ofList_inj, List.append_cancel_right_eq, rendered_pushBytes_eq_iff]

theorem namedValue_of_not_planned
    (hplanned : ∀ name ∈ templateNames template, isPlannedName name = false) {name : String}
    (hn : name ∈ templateNames template) :
    namedValue planned variables' name = variables'.get? name := by
  simp [namedValue, hplanned name hn]

/-- Where every name has a value that is no null, the two render alike. -/
theorem substituteImportId_eq_of_resolved
    (hplanned : ∀ name ∈ templateNames template, isPlannedName name = false)
    (hfirst : firstUnresolved valueText template planned variables' = none) :
    substituteImportId valueText template variables' =
      substituteWithPlanned valueText template planned variables' := by
  have hall := (firstUnresolved_eq_none_iff _ _ _ _).mp hfirst
  have hfound : (tokenNames (templatePieces template)).find? (fun name =>
      (variables'.get? name).map (idText valueText) = none) = none := by
    rw [List.find?_eq_none]
    intro name hn hmissing
    have hnone : variables'.get? name = none := by simpa using hmissing
    exact hall name hn ((presentText_eq_none_iff _ _).mpr
      (.inl ((namedValue_of_not_planned _ _ _ hplanned hn).trans hnone)))
  have htexts : rendered (fun name => (variables'.get? name).map (idText valueText)) pushBytes
      (templatePieces template) = rendered (fun name =>
        presentText valueText (namedValue planned variables' name)) pushBytes
      (templatePieces template) := by
    apply rendered_congr
    intro name hn
    have hpresent := hall name hn
    rw [namedValue_of_not_planned _ _ _ hplanned hn] at hpresent ⊢
    unfold presentText at hpresent ⊢
    split at hpresent <;> simp_all
  rw [substituteImportId_eq, substitute_eq, hfound, substituteWithPlanned_eq_ok _ _ _ _ hfirst]
  simp [htexts]

/-- Both fail on the first name without a value, but only one of them on a null. -/
theorem substituteImportId_eq_iff_of_unresolved
    (hplanned : ∀ name ∈ templateNames template, isPlannedName name = false) {name : String}
    (hfirst : firstUnresolved valueText template planned variables' = some name) :
    substituteImportId valueText template variables' =
        substituteWithPlanned valueText template planned variables' ↔
      variables'.get? name = none := by
  have hmissing (n : String) : (variables'.get? n).map (idText valueText) = none ↔
      variables'.get? n = none := Option.map_eq_none_iff
  rw [substituteImportId_eq, substitute_eq, substituteWithPlanned_eq_error _ _ _ _ hfirst]
  constructor
  · intro h
    split at h
    · next n hfind =>
      cases h
      simpa [hmissing] using List.find?_some hfind
    · cases h
  · intro h
    obtain ⟨-, before, after, hnames, hbefore⟩ := List.find?_eq_some_iff_append.mp hfirst
    have hfind : (tokenNames (templatePieces template)).find? (fun n =>
        (variables'.get? n).map (idText valueText) = none) = some name := by
      rw [List.find?_eq_some_iff_append]
      refine ⟨by simpa [hmissing] using h, before, after, hnames, fun n hn => ?_⟩
      have hmem : n ∈ templateNames template := hnames ▸ List.mem_append_left _ hn
      have hpresent := hbefore n hn
      rw [namedValue_of_not_planned _ _ _ hplanned hmem] at hpresent
      simp only [hmissing]
      rw [Bool.not_eq_true', decide_eq_false_iff_not] at hpresent ⊢
      exact fun hnone => hpresent ((presentText_eq_none_iff _ _).mpr (.inl hnone))
    rw [hfind]

/-- Without planned names the two differ where the first name without a value is a null. -/
theorem substituteImportId_eq_iff
    (hplanned : ∀ name ∈ templateNames template, isPlannedName name = false) :
    substituteImportId valueText template variables' =
        substituteWithPlanned valueText template planned variables' ↔
      ∀ name, firstUnresolved valueText template planned variables' = some name →
        variables'.get? name = none := by
  cases hfirst : firstUnresolved valueText template planned variables' with
  | none => simp [substituteImportId_eq_of_resolved _ _ _ _ hplanned hfirst]
  | some name => simp [substituteImportId_eq_iff_of_unresolved _ _ _ _ hplanned hfirst]

/-- A substitution does as documented just in case no character outside of the tokens is
mangled where it succeeds, and no null is met first where both could render. -/
theorem rendersExactly_iff :
    RendersExactly valueText template planned variables' ↔
      ((∀ name ∈ templateNames template,
          presentText valueText (namedValue planned variables' name) ≠ none) →
        ∀ c, .char c ∈ templatePieces template → c.utf8Size = 1) ∧
      ((∀ name ∈ templateNames template, isPlannedName name = false) →
        ∀ name, firstUnresolved valueText template planned variables' = some name →
          variables'.get? name = none) := by
  constructor
  · intro h
    constructor
    · intro hall
      have hnone := (firstUnresolved_eq_none_iff _ _ _ _).mpr hall
      have hok := substituteWithPlanned_eq_ok valueText template planned variables' hnone
      rw [← output_eq_replacedTemplate_iff _ _ _ _ hnone, hok, ← h.output _ hok]
    · intro hplanned
      exact (substituteImportId_eq_iff _ _ _ _ hplanned).mp (h.agrees hplanned)
  · rintro ⟨hascii, hnull⟩
    refine ⟨?_, ?_, ?_⟩
    · rw [← firstUnresolved_eq_none_iff]
      cases hfirst : firstUnresolved valueText template planned variables' with
      | none =>
        have hok := substituteWithPlanned_eq_ok valueText template planned variables' hfirst
        exact ⟨fun _ => rfl, fun _ => ⟨_, hok⟩⟩
      | some name =>
        rw [substituteWithPlanned_eq_error _ _ _ _ hfirst]
        simp
    · intro out hout
      cases hfirst : firstUnresolved valueText template planned variables' with
      | none =>
        have hall := (firstUnresolved_eq_none_iff _ _ _ _).mp hfirst
        have hok := (output_eq_replacedTemplate_iff _ _ _ _ hfirst).mpr (hascii hall)
        rw [hok] at hout
        cases hout
        rfl
      | some name =>
        rw [substituteWithPlanned_eq_error _ _ _ _ hfirst] at hout
        cases hout
    · intro hplanned
      exact (substituteImportId_eq_iff _ _ _ _ hplanned).mpr (hnull hplanned)

end Renderers

/-- A repository whose prefix is spelled with an umlaut, and a hint on a null variable. -/
theorem umlaut_and_null_not_exact :
    substituteWithPlanned (fun _ => "null") "ü/{{ .planned.name }}" (.obj [("name", .str "repo")])
      .empty = .ok "Ã¼/repo" ∧
    replacedTemplate (fun _ => "null") "ü/{{ .planned.name }}" (.obj [("name", .str "repo")])
      .empty = "ü/repo" ∧
    substituteWithPlanned (fun _ => "null") "{{ .zone }}" .null ⟨[("zone", .null)], by simp⟩ =
      .error "zone" ∧
    substituteImportId (fun _ => "null") "{{ .zone }}" ⟨[("zone", .null)], by simp⟩ =
      .ok "null" := by
  decide +kernel

end PangeaOperator
