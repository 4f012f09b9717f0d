import Mathlib

/-!
# Resource addresses

`pangea-leaf`, `address.rs`. An address is a chain of steps, each a name with an index or without,
and the leaf of an address is read off it: the first index, else the top module, else the address.
-/

namespace PangeaOperator.Migrate

inductive AddressError where
  | empty
  | unterminatedIndex (address : String)
  | unterminatedString (address : String)
  | emptySegment (address : String)
  | trailingAfterIndex (address : String) (found : Char)
  deriving Repr, DecidableEq

inductive LeafKey where
  | keyed (key : String)
  | module (name : String)
  | address (address : String)
  deriving Repr, DecidableEq

def LeafKey.raw : LeafKey → String
  | .keyed s | .module s | .address s => s

def LeafKey.tag : LeafKey → String
  | .keyed _ => "keyed"
  | .module _ => "module"
  | .address _ => "address"

structure Step where
  name : String
  key : Option String
  deriving Repr, DecidableEq

def nameChar (c : Char) : Bool := c ≠ '.' && c ≠ '['

/-- The string after an opening quote, and what follows its closing quote. -/
def quotedKey : List Char → Option (List Char × List Char)
  | [] => none
  | '\\' :: [] => none
  | '\\' :: c :: cs => (quotedKey cs).map (fun p => (c :: p.1, p.2))
  | '"' :: cs => some ([], cs)
  | c :: cs => (quotedKey cs).map (fun p => (c :: p.1, p.2))

/-- An index, if one stands here, and what follows it. -/
def parseIndex (address : String) : List Char → Except AddressError (Option String × List Char)
  | '[' :: '"' :: cs =>
    match quotedKey cs with
    | none => .error (.unterminatedString address)
    | some (key, rest) =>
      match rest with
      | ']' :: rest => .ok (some (String.ofList key), rest)
      | _ => .error (.unterminatedIndex address)
  | '[' :: cs =>
    match cs.dropWhile (· ≠ ']') with
    | [] => .error (.unterminatedIndex address)
    | _ :: rest => .ok (some (String.ofList (cs.takeWhile (· ≠ ']'))), rest)
  | cs => .ok (none, cs)

theorem length_quotedKey {cs key rest : List Char} (h : quotedKey cs = some (key, rest)) :
    rest.length < cs.length := by
  induction cs using quotedKey.induct generalizing key with
  | case1 => cases h
  | case2 => cases h
  | case3 c cs ih =>
    rw [quotedKey, Option.map_eq_some_iff] at h
    obtain ⟨⟨k, r⟩, hk, he⟩ := h
    obtain ⟨-, rfl⟩ := Prod.mk.injEq .. ▸ he
    exact (ih hk).trans (by simp)
  | case4 cs =>
    cases h
    exact Nat.lt_succ_self _
  | case5 c cs h₁ h₂ h₃ ih =>
    rw [quotedKey, Option.map_eq_some_iff] at h
    · obtain ⟨⟨k, r⟩, hk, he⟩ := h
      obtain ⟨-, rfl⟩ := Prod.mk.injEq .. ▸ he
      exact (ih hk).trans (by simp)
    all_goals assumption

theorem length_parseIndex {address : String} {cs rest : List Char} {key : Option String}
    (h : parseIndex address cs = .ok (key, rest)) : rest.length ≤ cs.length := by
  unfold parseIndex at h
  split at h
  · split at h
    · cases h
    · next k r hk =>
      have hlen := length_quotedKey hk
      split at h
      · cases h
        simp only [List.length_cons] at hlen ⊢
        omega
      · cases h
  · next cs' _ =>
    split at h
    · cases h
    · next c r hdrop =>
      cases h
      have hlen := (List.dropWhile_sublist (l := cs') (· ≠ ']')).length_le
      rw [hdrop] at hlen
      simp only [List.length_cons] at hlen ⊢
      omega
  · cases h
    exact Nat.le_refl _

/-- The steps from one position on. -/
def parseFrom (address : String) (cs : List Char) : Except AddressError (List Step) :=
  let name := cs.takeWhile nameChar
  if name = [] then .error (.emptySegment address)
  else
    match _h : parseIndex address (cs.dropWhile nameChar) with
    | .error e => .error e
    | .ok (key, []) => .ok [⟨String.ofList name, key⟩]
    | .ok (key, '.' :: rest) =>
      match parseFrom address rest with
      | .error e => .error e
      | .ok steps => .ok (⟨String.ofList name, key⟩ :: steps)
    | .ok (_, c :: _) => .error (.trailingAfterIndex address c)
termination_by cs.length
decreasing_by
  have hrest := length_parseIndex _h
  have hdrop := (List.dropWhile_sublist (l := cs) nameChar).length_le
  simp only [List.length_cons] at hrest
  omega

def parseSteps (address : String) : Except AddressError (List Step) :=
  if address = "" then .error .empty else parseFrom address address.toList

def leafKey (address : String) : Except AddressError LeafKey :=
  match parseSteps address with
  | .error e => .error e
  | .ok steps =>
    match steps.findSome? Step.key with
    | some key => .ok (.keyed key)
    | none =>
      match steps with
      | first :: second :: _ =>
        if first.name = "module" then .ok (.module ("module." ++ second.name))
        else .ok (.address address)
      | _ => .ok (.address address)

def stripIndex (address : String) : Except AddressError String :=
  match parseSteps address with
  | .error e => .error e
  | .ok steps => .ok (".".intercalate (steps.map Step.name))

/-- `split_once('.')`, the part after the dot. -/
def afterDot (cs : List Char) : Option (List Char) :=
  match cs.dropWhile (· ≠ '.') with
  | [] => none
  | _ :: rest => some rest

def stripPrefix (pre cs : List Char) : Option (List Char) :=
  if pre.isPrefixOf cs then some (cs.drop pre.length) else none

def isData (address : String) : Bool :=
  let cs := address.toList
  let data := "data.".toList
  let rest := ((stripPrefix "module.".toList cs).bind afterDot).getD cs
  data.isPrefixOf cs || data.isPrefixOf rest

/-- The first index wins, whatever stands in it. -/
example : leafKey "module.n[\"a.b]\\\"c\"].x.y[1]" = .ok (.keyed "a.b]\"c") := by decide +kernel

end PangeaOperator.Migrate
