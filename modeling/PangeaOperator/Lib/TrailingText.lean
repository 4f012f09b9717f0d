import Mathlib
import PangeaOperator.Lib.JsonText

/-!
# Text with a comma behind every item

The text of a value with a comma behind each item and each member, the last with them. It is not
JSON, but it still determines the value: what an item begins with is never the bracket that closes
a list, and what follows a number is never part of one.
-/

namespace PangeaOperator

namespace Json

variable {ν : Type} {numText : ν → List Char}

mutual
def trailing (numText : ν → List Char) : Json ν → List Char
  | .obj ms => '\x7b' :: trailingMembers numText ms
  | .arr xs => '[' :: trailingItems numText xs
  | .null => render numText .null
  | .bool b => render numText (.bool b)
  | .num n => render numText (.num n)
  | .str s => render numText (.str s)
def trailingItems (numText : ν → List Char) : List (Json ν) → List Char
  | [] => [']']
  | x :: xs => trailing numText x ++ ',' :: trailingItems numText xs
def trailingMembers (numText : ν → List Char) : List (String × Json ν) → List Char
  | [] => ['\x7d']
  | m :: ms => trailingMember numText m ++ ',' :: trailingMembers numText ms
def trailingMember (numText : ν → List Char) : String × Json ν → List Char
  | (k, v) => renderString k ++ ':' :: trailing numText v
end

theorem trailing_headed (hnum : NumberText numText) : Headed (trailing numText) := by
  intro v
  cases v with
  | obj ms => exact ⟨_, _, rfl, rfl⟩
  | arr xs => exact ⟨_, _, rfl, rfl⟩
  | null => exact render_headed hnum .null
  | bool b => exact render_headed hnum (.bool b)
  | num n => exact render_headed hnum (.num n)
  | str s => exact render_headed hnum (.str s)

/-- The value can be read off the front of a longer text. -/
def FrontRead (numText : ν → List Char) (v : Json ν) : Prop :=
  ∀ (w : Json ν) (r s : List Char), Stop r → Stop s →
    trailing numText v ++ r = trailing numText w ++ s → v = w ∧ r = s

theorem trailingItems_append_inj (hnum : NumberText numText) {xs ys : List (Json ν)}
    (hx : ∀ x ∈ xs, FrontRead numText x) {r s : List Char}
    (h : trailingItems numText xs ++ r = trailingItems numText ys ++ s) : xs = ys ∧ r = s := by
  induction xs generalizing ys with
  | nil =>
    cases ys with
    | nil => simpa [trailingItems] using h
    | cons y ys =>
      rw [trailingItems, trailingItems, List.append_assoc] at h
      exact absurd h.symm ((trailing_headed hnum).ne_cons (by decide))
  | cons x xs ih =>
    cases ys with
    | nil =>
      rw [trailingItems, trailingItems, List.append_assoc] at h
      exact absurd h ((trailing_headed hnum).ne_cons (by decide))
    | cons y ys =>
      rw [trailingItems, trailingItems, List.append_assoc, List.append_assoc] at h
      obtain ⟨rfl, ht⟩ := hx x List.mem_cons_self y _ _ (stop_cons (by decide) _)
        (stop_cons (by decide) _) h
      obtain ⟨rfl, hrs⟩ := ih (fun z hz => hx z (List.mem_cons_of_mem _ hz)) (List.cons.inj ht).2
      exact ⟨rfl, hrs⟩

theorem trailingMembers_append_inj {ms ns : List (String × Json ν)}
    (hm : ∀ m ∈ ms, FrontRead numText m.2) {r s : List Char}
    (h : trailingMembers numText ms ++ r = trailingMembers numText ns ++ s) :
    ms = ns ∧ r = s := by
  induction ms generalizing ns with
  | nil =>
    cases ns with
    | nil => simpa [trailingMembers] using h
    | cons n ns =>
      obtain ⟨k, w⟩ := n
      simp [trailingMembers, trailingMember, renderString, quote] at h
  | cons m ms ih =>
    obtain ⟨j, v⟩ := m
    cases ns with
    | nil => simp [trailingMembers, trailingMember, renderString, quote] at h
    | cons n ns =>
      obtain ⟨k, w⟩ := n
      simp only [trailingMembers, trailingMember, List.append_assoc, List.cons_append] at h
      obtain ⟨rfl, ht⟩ := renderString_append_inj h
      rw [List.cons.injEq] at ht
      obtain ⟨hvw, hrest⟩ := hm (j, v) List.mem_cons_self w _ _ (stop_cons (by decide) _)
        (stop_cons (by decide) _) ht.2
      rw [List.cons.injEq] at hrest
      obtain ⟨rfl, hrs⟩ := ih (fun z hz => hm z (List.mem_cons_of_mem _ hz)) hrest.2
      exact ⟨by rw [show v = w from hvw], hrs⟩

theorem frontRead (hnum : NumberText numText) (v : Json ν) : FrontRead numText v := by
  induction v using induct with
  | arr xs ih =>
    intro w r s _ _ h
    have hk := (trailing_headed hnum).kind_eq h
    cases w with
    | arr ys =>
      rw [trailing, trailing, List.cons_append, List.cons_append, List.cons.injEq] at h
      obtain ⟨rfl, hrs⟩ := trailingItems_append_inj hnum ih h.2
      exact ⟨rfl, hrs⟩
    | _ => simp [kind] at hk
  | obj ms ih =>
    intro w r s _ _ h
    have hk := (trailing_headed hnum).kind_eq h
    cases w with
    | obj ns =>
      rw [trailing, trailing, List.cons_append, List.cons_append, List.cons.injEq] at h
      obtain ⟨rfl, hrs⟩ := trailingMembers_append_inj ih h.2
      exact ⟨rfl, hrs⟩
    | _ => simp [kind] at hk
  | _ =>
    -- a scalar has the text it has in JSON
    intro w r s hr hs h
    have hk := (trailing_headed hnum).kind_eq h
    cases w with
    | arr ys => simp [kind] at hk
    | obj ns => simp [kind] at hk
    | _ => exact readable hnum _ _ r s hr hs h

end Json

end PangeaOperator
