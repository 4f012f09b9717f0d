import Mathlib.Data.List.Infix

/-!
# Patterns with wildcards

A text fills a pattern when it is the pattern with some text in place of each wildcard. Behind a
wildcard it is enough to look for the first occurrence of the literal part that follows: what is
left behind it is as much as any other occurrence leaves.
-/

namespace PangeaOperator.Wildcard

variable {α : Type} {wild : α} {p part input rest : List α}

/-- The text is the pattern with a text in place of each wildcard. -/
inductive Fills (wild : α) : List α → List α → Prop where
  | nil : Fills wild [] []
  | wild (s : List α) {p input : List α} : Fills wild p input → Fills wild (wild :: p) (s ++ input)
  | literal {c : α} {p input : List α} : c ≠ wild → Fills wild p input →
      Fills wild (c :: p) (c :: input)

theorem fills_nil_iff : Fills wild [] input ↔ input = [] := by
  constructor
  · intro h
    cases h
    rfl
  · rintro rfl
    exact .nil

theorem fills_wild_iff :
    Fills wild (wild :: p) input ↔ ∃ rest, rest <:+ input ∧ Fills wild p rest := by
  constructor
  · intro h
    cases h with
    | wild s hrest => exact ⟨_, List.suffix_append s _, hrest⟩
    | literal hc _ => exact absurd rfl hc
  · rintro ⟨rest, ⟨s, rfl⟩, hrest⟩
    exact .wild s hrest

theorem fills_wild_mono (h : Fills wild (wild :: p) rest) (hsuffix : rest <:+ input) :
    Fills wild (wild :: p) input := by
  obtain ⟨tail, htail, hfills⟩ := fills_wild_iff.mp h
  exact fills_wild_iff.mpr ⟨tail, htail.trans hsuffix, hfills⟩

theorem fills_wild_wild_iff :
    Fills wild (wild :: wild :: p) input ↔ Fills wild (wild :: p) input := by
  constructor
  · intro h
    obtain ⟨rest, hsuffix, hrest⟩ := fills_wild_iff.mp h
    exact fills_wild_mono hrest hsuffix
  · exact fun h => fills_wild_iff.mpr ⟨input, List.suffix_refl input, h⟩

/-- A literal part is filled by itself. -/
theorem fills_append_iff (hpart : wild ∉ part) :
    Fills wild (part ++ p) input ↔ ∃ rest, input = part ++ rest ∧ Fills wild p rest := by
  induction part generalizing input with
  | nil => simp
  | cons c part ih =>
    rw [List.mem_cons, not_or] at hpart
    obtain ⟨hne, hrest⟩ := hpart
    constructor
    · intro h
      cases h with
      | wild s h => exact absurd rfl hne
      | literal hc h =>
        obtain ⟨rest, rfl, hfills⟩ := (ih hrest).mp h
        exact ⟨rest, rfl, hfills⟩
    · rintro ⟨rest, rfl, hfills⟩
      exact .literal (Ne.symm hne) ((ih hrest).mpr ⟨rest, rfl, hfills⟩)

theorem fills_literal_iff (hpart : wild ∉ part) : Fills wild part input ↔ part = input := by
  have h : Fills wild (part ++ []) input ↔ _ := fills_append_iff hpart
  rw [List.append_nil] at h
  rw [h]
  simp [fills_nil_iff, eq_comm]

/-- The last part ends the text. -/
theorem fills_wild_literal_iff (hpart : wild ∉ part) :
    Fills wild (wild :: part) input ↔ part <:+ input := by
  rw [fills_wild_iff]
  constructor
  · rintro ⟨rest, hsuffix, hrest⟩
    rwa [(fills_literal_iff hpart).mp hrest]
  · exact fun h => ⟨part, h, (fills_literal_iff hpart).mpr rfl⟩

/-- `rest` is what stands behind the first occurrence of the part. -/
structure BehindFirst (part input rest : List α) : Prop where
  occurs : part ++ rest <:+ input
  first : ∀ other, part ++ other <:+ input → other <:+ rest

/-- Behind a wildcard the first occurrence of a part serves as well as any other. -/
theorem fills_wild_part_iff (hpart : wild ∉ part) (h : BehindFirst part input rest) :
    Fills wild (wild :: (part ++ wild :: p)) input ↔ Fills wild (wild :: p) rest := by
  constructor
  · intro hfills
    obtain ⟨tail, hsuffix, htail⟩ := fills_wild_iff.mp hfills
    obtain ⟨other, rfl, hother⟩ := (fills_append_iff hpart).mp htail
    exact fills_wild_mono hother (h.first other hsuffix)
  · intro hfills
    have hrest := (fills_append_iff hpart).mpr ⟨rest, rfl, hfills⟩
    exact fills_wild_iff.mpr ⟨part ++ rest, h.occurs, hrest⟩

/-- A part that does not occur is not filled. -/
theorem not_fills_wild_part (hpart : wild ∉ part) (h : ¬part <:+: input) :
    ¬Fills wild (wild :: (part ++ p)) input := by
  intro hfills
  obtain ⟨tail, ⟨s, hs⟩, htail⟩ := fills_wild_iff.mp hfills
  obtain ⟨other, rfl, -⟩ := (fills_append_iff hpart).mp htail
  exact h ⟨s, other, by rw [List.append_assoc, hs]⟩

end PangeaOperator.Wildcard
