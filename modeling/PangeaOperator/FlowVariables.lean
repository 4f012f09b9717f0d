import PangeaOperator.Import
import PangeaOperator.Lib.Cut
import PangeaOperator.Lib.SortedMap

/-!
# References to the outputs of steps

`executor/variable_resolver.rs`: a string of a flow's variables names outputs of other steps. Its
references are replaced one after the other, each wherever its token stands in the text that the
ones before have made. Which steps are missing is asked of the strings at the top only.
-/

namespace PangeaOperator

open Json

namespace FlowVariables

open Cut (cut replaceAll blocks put)

/-- The outputs of the steps, by step and key. -/
abbrev StepOutputs := SortedMap String (SortedMap String Doc)

structure Reference where
  stepName : String
  outputKey : String
  deriving DecidableEq, Repr

def opening : List Char := "\x7b\x7b steps.".toList

def closing : List Char := " \x7d\x7d".toList

def separator : List Char := ".outputs.".toList

/-- The reference that a token has inside, if it is one. -/
def referenceIn (inner : List Char) : Option Reference :=
  (cut separator inner).map (fun parts => ⟨String.ofList parts.1, String.ofList parts.2⟩)

/-- The loop of `extract_references`. -/
def scanReferences : Nat → List Char → List Reference
  | 0, _ => []
  | fuel + 1, remaining =>
    match cut opening remaining with
    | none => []
    | some (_, afterStart) =>
      match cut closing afterStart with
      | none => []
      | some (inner, rest) => (referenceIn inner).toList ++ scanReferences fuel rest

def extractReferences (s : String) : List Reference := scanReferences s.toList.length s.toList

/-- The token that a reference is written as. -/
def Reference.pattern (r : Reference) : List Char :=
  opening ++ ((r.stepName.toList ++ (separator ++ r.outputKey.toList)) ++ closing)

def stepMissingMessage (stepName : String) : String :=
  s!"Step '{stepName}' not found in flow outputs"

def outputMissingMessage (outputKey stepName : String) : String :=
  s!"Output '{outputKey}' not found in step '{stepName}'"

/-- The reference that a string consists of, blanks around it aside. -/
def soleReference (s : String) : Option Reference :=
  match extractReferences s with
  | [r] => if trimMatches isWhitespace s.toList = r.pattern then some r else none
  | _ => none

mutual
/-- A value with its strings replaced, at any depth, up to the first error. -/
def mapTexts (f : String → Except String Doc) : Doc → Except String Doc
  | .str s => f s
  | .arr items => (mapItems f items).map .arr
  | .obj members => (mapMembers f members).map .obj
  | .null => .ok .null
  | .bool b => .ok (.bool b)
  | .num n => .ok (.num n)
def mapItems (f : String → Except String Doc) : List Doc → Except String (List Doc)
  | [] => .ok []
  | v :: items => do
    let v ← mapTexts f v
    (mapItems f items).map (v :: ·)
def mapMembers (f : String → Except String Doc) :
    List (String × Doc) → Except String (List (String × Doc))
  | [] => .ok []
  | m :: members => do
    let m ← mapMember f m
    (mapMembers f members).map (m :: ·)
def mapMember (f : String → Except String Doc) : String × Doc → Except String (String × Doc)
  | (k, v) => (mapTexts f v).map (k, ·)
end

section Resolve

variable (valueText : Doc → String) (stepOutputs : StepOutputs)

def lookup (r : Reference) : Except String Doc :=
  match stepOutputs.get? r.stepName with
  | none => .error (stepMissingMessage r.stepName)
  | some outputs =>
    match outputs.get? r.outputKey with
    | none => .error (outputMissingMessage r.outputKey r.stepName)
    | some value => .ok value

/-- An output as it goes into a text. -/
def replacement : Doc → String
  | .str s => s
  | v => valueText v

def resolveString (s : String) : Except String String := do
  let result ← (extractReferences s).foldlM (fun result r => do
    let value ← lookup stepOutputs r
    .ok (replaceAll r.pattern (replacement valueText value).toList result)) s.toList
  .ok (String.ofList result)

/-- The case of `resolve_value` for a string: a sole reference keeps the type of its output. -/
def resolveText (s : String) : Except String Doc := do
  let resolved ← resolveString valueText stepOutputs s
  match (soleReference s).bind
      (fun r => (stepOutputs.get? r.stepName).bind (·.get? r.outputKey)) with
  | some value => .ok value
  | none => .ok (.str resolved)

def resolveValue (value : Doc) : Except String Doc :=
  mapTexts (resolveText valueText stepOutputs) value

def resolveStepReferences (variables' : SortedMap String Doc) :
    Except String (SortedMap String Doc) :=
  variables'.entries.foldlM (fun resolved e => do
    let value ← resolveValue valueText stepOutputs e.2
    .ok (resolved.insert e.1 value)) .empty

def addMissing (missing : List String) (r : Reference) : List String :=
  if (stepOutputs.get? r.stepName).isNone && r.stepName ∉ missing then missing ++ [r.stepName]
  else missing

def unresolvedDependencies (variables' : SortedMap String Doc) : List String :=
  variables'.values.foldl (fun missing value =>
    match value with
    | .str s => (extractReferences s).foldl (addMissing stepOutputs) missing
    | _ => missing) []

end Resolve

section Substitution

mutual
/-- The strings of a value, at any depth, in the order in which they are met. -/
def texts : Doc → List String
  | .str s => [s]
  | .arr items => textsItems items
  | .obj members => textsMembers members
  | .null | .bool _ | .num _ => []
def textsItems : List Doc → List String
  | [] => []
  | v :: items => texts v ++ textsItems items
def textsMembers : List (String × Doc) → List String
  | [] => []
  | m :: members => textsMember m ++ textsMembers members
def textsMember : String × Doc → List String
  | (_, v) => texts v
end

mutual
/-- A value with its strings replaced, where that cannot fail. -/
def withTexts (g : String → Doc) : Doc → Doc
  | .str s => g s
  | .arr items => .arr (withItems g items)
  | .obj members => .obj (withMembers g members)
  | .null => .null
  | .bool b => .bool b
  | .num n => .num n
def withItems (g : String → Doc) : List Doc → List Doc
  | [] => []
  | v :: items => withTexts g v :: withItems g items
def withMembers (g : String → Doc) : List (String × Doc) → List (String × Doc)
  | [] => []
  | m :: members => withMember g m :: withMembers g members
def withMember (g : String → Doc) : String × Doc → String × Doc
  | (k, v) => (k, withTexts g v)
end

def textsOf (variables' : SortedMap String Doc) : List String := variables'.values.flatMap texts

/-- All references of the variables, in the order in which they are met. -/
def references (variables' : SortedMap String Doc) : List Reference :=
  (textsOf variables').flatMap extractReferences

/-- The references of the strings that are not nested. -/
def topReferences (variables' : SortedMap String Doc) : List Reference :=
  variables'.values.flatMap (fun value =>
    match value with
    | .str s => extractReferences s
    | _ => [])

variable (valueText : Doc → String) (stepOutputs : StepOutputs)

def lookupError (r : Reference) : Option String :=
  match lookup stepOutputs r with
  | .error message => some message
  | .ok _ => none

/-- What a reference gives for its token. -/
def outputText (r : Reference) : List Char :=
  match lookup stepOutputs r with
  | .ok value => (replacement valueText value).toList
  | .error _ => []

/-- The text of a string in which each reference is replaced by this. -/
def substituted (value : Reference → List Char) (s : String) : List Char :=
  put opening closing (fun inner => (referenceIn inner).map value)
    (blocks opening closing s.toList.length s.toList)

/-- A string that is one reference is its output, another one is this text. -/
def outputOr (text : List Char) (s : String) : Doc :=
  match (soleReference s).map (lookup stepOutputs) with
  | some (.ok value) => value
  | _ => .str (String.ofList text)

/-- A string with the references of its own text replaced at once. -/
def substituteText (s : String) : Doc :=
  outputOr stepOutputs (substituted (outputText valueText stepOutputs) s) s

/-- The variables under the substitution, or the error of the first reference without an
output. -/
def substituteReferences (variables' : SortedMap String Doc) :
    Except String (SortedMap String Doc) :=
  match (references variables').findSome? (lookupError stepOutputs) with
  | some message => .error message
  | none => .ok (variables'.mapValues (withTexts (substituteText valueText stepOutputs)))

end Substitution

section Walk

/-- A value, or the error that came first. -/
def orError {α : Type} (message : Option String) (value : α) : Except String α :=
  match message with
  | some message => .error message
  | none => .ok value

variable {α β : Type}

@[simp] theorem orError_map (message : Option String) (value : α) (k : α → β) :
    (orError message value).map k = orError message (k value) := by
  cases message <;> rfl

@[simp] theorem orError_bind (message message' : Option String) (value : α) (k : α → β) :
    (orError message value >>= fun v => orError message' (k v)) =
      orError (message.or message') (k value) := by
  cases message <;> rfl

@[simp] theorem orError_bind_ok (message : Option String) (value : α) (k : α → β) :
    (orError message value >>= fun v => .ok (k v)) = orError message (k value) := by
  cases message <;> rfl

theorem orError_eq_error_iff {message : Option String} {value : α} {m : String} :
    orError message value = .error m ↔ message = some m := by
  cases message <;> simp [orError]

theorem orError_inj_iff {message : Option String} {value value' : α} :
    orError message value = orError message value' ↔ (message = none → value = value') := by
  cases message <;> simp [orError]

variable {f : String → Except String Doc} {e : String → Option String} {g g' : String → Doc}

theorem mapTexts_eq (hf : ∀ s, f s = orError (e s) (g s)) (v : Doc) :
    mapTexts f v = orError ((texts v).findSome? e) (withTexts g v) := by
  induction v using Json.induct with
  | null | bool b | num n => rfl
  | str s =>
    rw [mapTexts, hf, texts, withTexts, List.findSome?_singleton]
  | arr items hitems =>
    have hall : mapItems f items =
        orError ((textsItems items).findSome? e) (withItems g items) := by
      induction items with
      | nil => rfl
      | cons v items ih =>
        rw [List.forall_mem_cons] at hitems
        rw [mapItems, hitems.1, ih hitems.2, textsItems, withItems, List.findSome?_append]
        simp
    rw [mapTexts, hall, texts, withTexts, orError_map]
  | obj members hmembers =>
    have hall : mapMembers f members =
        orError ((textsMembers members).findSome? e) (withMembers g members) := by
      induction members with
      | nil => rfl
      | cons m members ih =>
        rw [List.forall_mem_cons] at hmembers
        have hm : mapMember f m = orError ((textsMember m).findSome? e) (withMember g m) := by
          rw [mapMember, hmembers.1, orError_map, textsMember, withMember]
        rw [mapMembers, hm, ih hmembers.2, textsMembers, withMembers, List.findSome?_append]
        simp
    rw [mapTexts, hall, texts, withTexts, orError_map]

theorem withTexts_eq_iff (v : Doc) :
    withTexts g v = withTexts g' v ↔ ∀ s ∈ texts v, g s = g' s := by
  induction v using Json.induct with
  | null | bool b | num n => simp [withTexts, texts]
  | str s => simp [withTexts, texts]
  | arr items hitems =>
    have hall : withItems g items = withItems g' items ↔ ∀ s ∈ textsItems items, g s = g' s := by
      induction items with
      | nil => simp [withItems, textsItems]
      | cons v items ih =>
        rw [List.forall_mem_cons] at hitems
        rw [withItems, withItems, List.cons.injEq, hitems.1, ih hitems.2, textsItems,
          List.forall_mem_append]
    rw [withTexts, withTexts, texts, Json.arr.injEq, hall]
  | obj members hmembers =>
    have hall : withMembers g members = withMembers g' members ↔
        ∀ s ∈ textsMembers members, g s = g' s := by
      induction members with
      | nil => simp [withMembers, textsMembers]
      | cons m members ih =>
        rw [List.forall_mem_cons] at hmembers
        have hm : withMember g m = withMember g' m ↔ ∀ s ∈ textsMember m, g s = g' s := by
          rw [withMember, withMember, Prod.mk_right_inj, hmembers.1, textsMember]
        rw [withMembers, withMembers, List.cons.injEq, hm, ih hmembers.2, textsMembers,
          List.forall_mem_append]
    rw [withTexts, withTexts, texts, Json.obj.injEq, hall]

end Walk

section Runs

variable (valueText : Doc → String) (stepOutputs : StepOutputs)

/-- The text of a string after all of its references, one after the other. -/
def sequential (value : Reference → List Char) (s : String) : List Char :=
  (extractReferences s).foldl (fun result r => replaceAll r.pattern (value r) result) s.toList

theorem lookup_toOption (r : Reference) : (lookup stepOutputs r).toOption =
    (stepOutputs.get? r.stepName).bind (·.get? r.outputKey) := by
  rw [lookup]
  cases stepOutputs.get? r.stepName with
  | none => rfl
  | some outputs =>
    cases h : outputs.get? r.outputKey <;> simp [h, Except.toOption]

theorem resolveString_eq (s : String) : resolveString valueText stepOutputs s =
    orError ((extractReferences s).findSome? (lookupError stepOutputs))
      (String.ofList (sequential (outputText valueText stepOutputs) s)) := by
  have hfold (rs : List Reference) (cs : List Char) :
      rs.foldlM (fun result r => do
        let value ← lookup stepOutputs r
        .ok (replaceAll r.pattern (replacement valueText value).toList result)) cs =
      orError (rs.findSome? (lookupError stepOutputs))
        (rs.foldl (fun result r =>
          replaceAll r.pattern (outputText valueText stepOutputs r) result) cs) := by
    induction rs generalizing cs with
    | nil => rfl
    | cons r rs ih =>
      rw [List.foldlM_cons, List.findSome?_cons, List.foldl_cons, lookupError, outputText]
      cases lookup stepOutputs r with
      | error message => rfl
      | ok value => exact ih _
  rw [resolveString, hfold]
  exact orError_bind_ok _ _ _

theorem resolveText_eq (s : String) : resolveText valueText stepOutputs s =
    orError ((extractReferences s).findSome? (lookupError stepOutputs))
      (outputOr stepOutputs (sequential (outputText valueText stepOutputs) s) s) := by
  have hvalue (resolved : String) : (match (soleReference s).bind
        (fun r => (stepOutputs.get? r.stepName).bind (·.get? r.outputKey)) with
      | some value => Except.ok value
      | none => .ok (.str resolved)) =
      (orError none (match (soleReference s).map (lookup stepOutputs) with
        | some (.ok value) => value
        | _ => .str resolved) : Except String Doc) := by
    cases soleReference s with
    | none => rfl
    | some r =>
      rw [Option.bind_some, Option.map_some, ← lookup_toOption]
      cases lookup stepOutputs r <;> rfl
  rw [resolveText, resolveString_eq]
  simp only [hvalue]
  exact orError_bind_ok _ _ _

theorem findSome?_references (e : Reference → Option String) (ss : List String) :
    (ss.flatMap extractReferences).findSome? e =
      ss.findSome? (fun s => (extractReferences s).findSome? e) := by
  induction ss with
  | nil => rfl
  | cons s ss ih =>
    rw [List.flatMap_cons, List.findSome?_append, List.findSome?_cons, ih]
    cases (extractReferences s).findSome? e <;> rfl

/-- The variables are resolved string by string, up to the first reference without an output. -/
theorem resolveStepReferences_eq (variables' : SortedMap String Doc) :
    resolveStepReferences valueText stepOutputs variables' =
      orError ((references variables').findSome? (lookupError stepOutputs))
        (variables'.mapValues (withTexts fun s =>
          outputOr stepOutputs (sequential (outputText valueText stepOutputs) s) s)) := by
  have hvalue := mapTexts_eq (resolveText_eq valueText stepOutputs)
  have hfold (es : List (String × Doc)) (m : SortedMap String Doc) :
      es.foldlM (fun resolved e => do
        let value ← resolveValue valueText stepOutputs e.2
        .ok (resolved.insert e.1 value)) m =
      orError ((((es.map Prod.snd).flatMap texts).flatMap extractReferences).findSome?
          (lookupError stepOutputs))
        ((es.map (fun e => (e.1, withTexts (fun s =>
          outputOr stepOutputs (sequential (outputText valueText stepOutputs) s) s) e.2))).foldl
            (fun m e => m.insert e.1 e.2) m) := by
    induction es generalizing m with
    | nil => rfl
    | cons e es ih =>
      rw [List.foldlM_cons, resolveValue, hvalue, orError_bind_ok, List.map_cons,
        List.flatMap_cons, List.flatMap_append, List.findSome?_append, findSome?_references]
      cases (texts e.2).findSome? (fun s =>
          (extractReferences s).findSome? (lookupError stepOutputs)) with
      | some message => rfl
      | none => exact ih _
  rw [resolveStepReferences, hfold]
  exact congrArg _ (SortedMap.ofList_entries (variables'.mapValues _))

theorem substituteReferences_eq (variables' : SortedMap String Doc) :
    substituteReferences valueText stepOutputs variables' =
      orError ((references variables').findSome? (lookupError stepOutputs))
        (variables'.mapValues (withTexts (substituteText valueText stepOutputs))) := rfl

end Runs

section Tokens

variable {s : String} {r : Reference} {value value' : Reference → List Char}

theorem opening_eq : opening = '{' :: "\x7b steps.".toList := by decide +kernel

theorem closing_eq : closing = " \x7d".toList ++ ['}'] := by decide +kernel

theorem delimiters : Cut.Delimiters opening closing :=
  ⟨by decide +kernel, by decide +kernel, by decide +kernel, by decide +kernel⟩

theorem scanReferences_eq (fuel : Nat) (cs : List Char) : scanReferences fuel cs =
    (blocks opening closing fuel cs).1.filterMap (fun b => referenceIn b.2) := by
  fun_induction blocks opening closing fuel cs with
  | case1 cs => rfl
  | case2 fuel cs hcut => rw [scanReferences, hcut]; rfl
  | case3 fuel cs before after hcut hclose => rw [scanReferences, hcut]; simp only [hclose]; rfl
  | case4 fuel cs before after hcut inner rest hclose ih =>
    rw [scanReferences, hcut]
    simp only [hclose, ih, List.filterMap_cons]
    cases referenceIn inner <;> rfl

theorem mem_extractReferences_iff : r ∈ extractReferences s ↔
    ∃ b ∈ (blocks opening closing s.toList.length s.toList).1, referenceIn b.2 = some r := by
  rw [extractReferences, scanReferences_eq, List.mem_filterMap]

theorem pattern_eq {inner : List Char} (h : referenceIn inner = some r) :
    r.pattern = opening ++ (inner ++ closing) := by
  obtain ⟨parts, hcut, rfl⟩ := Option.map_eq_some_iff.mp h
  obtain ⟨rfl, -⟩ := Cut.cut_eq_some_iff.mp (show _ = some (parts.1, parts.2) from hcut)
  simp [Reference.pattern]

theorem pattern_head? (r : Reference) : r.pattern.head? = some '{' := by
  rw [Reference.pattern, opening_eq, List.cons_append, List.head?_cons]

theorem pattern_getLast? (r : Reference) : r.pattern.getLast? = some '}' := by
  rw [Reference.pattern, closing_eq, ← List.append_assoc, ← List.append_assoc,
    List.getLast?_concat]

theorem pattern_ne_nil (r : Reference) : r.pattern ≠ [] := by
  intro h
  have hhead := pattern_head? r
  rw [h] at hhead
  cases hhead

/-- What is inside of a token determines its reference, and the other way around. -/
theorem referenceIn_inj {inner inner' : List Char} (h : referenceIn inner = some r)
    (h' : referenceIn inner' = some r) : inner = inner' := by
  have hpattern := (pattern_eq h).symm.trans (pattern_eq h')
  exact List.append_cancel_right (List.append_cancel_left hpattern)

theorem substituted_congr (h : ∀ r ∈ extractReferences s, value r = value' r) :
    substituted value s = substituted value' s := by
  refine Cut.put_congr fun b hb => ?_
  cases hr : referenceIn b.2 with
  | none => rfl
  | some r => rw [Option.map_some, Option.map_some, h r (mem_extractReferences_iff.mpr ⟨b, hb, hr⟩)]

theorem sequential_congr (h : ∀ r ∈ extractReferences s, value r = value' r) :
    sequential value s = sequential value' s := by
  refine List.foldl_ext _ _ _ fun cs r hr => ?_
  rw [h r hr]

theorem infix_substituted (value : Reference → List Char) (hr : r ∈ extractReferences s) :
    value r <:+: substituted value s := by
  obtain ⟨b, hb, hreference⟩ := mem_extractReferences_iff.mp hr
  exact Cut.infix_put hb (by rw [hreference, Option.map_some])

/-- The token of the only reference stands nowhere else than in its own places. -/
theorem replaceAll_pattern (hr : r ∈ extractReferences s)
    (hall : ∀ r' ∈ extractReferences s, r' = r)
    (value : Reference → List Char) :
    replaceAll r.pattern (value r) s.toList = substituted value s := by
  obtain ⟨⟨_, t⟩, hb, hreference⟩ := mem_extractReferences_iff.mp hr
  have hother (b : List Char × List Char)
      (hb : b ∈ (blocks opening closing s.toList.length s.toList).1) :
      b.2 = t ∨ referenceIn b.2 = none := by
    cases h : referenceIn b.2 with
    | none => exact .inr rfl
    | some r' =>
      obtain rfl := hall r' (mem_extractReferences_iff.mpr ⟨b, hb, h⟩)
      exact .inl (referenceIn_inj h hreference)
  rw [pattern_eq hreference, Cut.replaceAll_block delimiters (Cut.cut_of_mem_blocks hb) _ le_rfl]
  · refine Cut.put_congr fun b hb => ?_
    rcases hother b hb with rfl | hnone
    · rw [if_pos rfl, hreference, Option.map_some]
    · have hne : b.2 ≠ t := by
        intro heq
        rw [heq, hreference] at hnone
        cases hnone
      rw [if_neg hne, hnone, Option.map_none]
  · -- a token that ends like this one has a separator too
    intro b hb
    refine (hother b hb).imp_right fun hnone hsuffix => ?_
    obtain ⟨parts, hcut, -⟩ := Option.map_eq_some_iff.mp hreference
    obtain ⟨rfl, -⟩ := Cut.cut_eq_some_iff.mp (show _ = some (parts.1, parts.2) from hcut)
    obtain ⟨u, hu⟩ := hsuffix
    have hsep : separator <+: b.2.drop (u ++ opening ++ parts.1).length := by
      rw [← hu]
      simp only [← List.append_assoc]
      rw [List.append_assoc _ separator, List.drop_left]
      exact List.prefix_append _ _
    exact Cut.cut_eq_none_iff.mp (Option.map_eq_none_iff.mp hnone) _ hsep

theorem sequential_eq_substituted (h : (extractReferences s).length ≤ 1)
    (value : Reference → List Char) : sequential value s = substituted value s := by
  match hs : extractReferences s with
  | [] =>
    have hnone : substituted value s =
        put opening closing (fun _ => none) (blocks opening closing s.toList.length s.toList) := by
      refine Cut.put_congr fun b hb => ?_
      cases hr : referenceIn b.2 with
      | none => rfl
      | some r =>
        have hmem := mem_extractReferences_iff.mpr ⟨b, hb, hr⟩
        rw [hs] at hmem
        cases hmem
    rw [sequential, hs, List.foldl_nil, hnone, Cut.put_blocks]
  | [r] =>
    rw [sequential, hs, List.foldl_cons, List.foldl_nil]
    exact replaceAll_pattern (by simp [hs]) (by simp [hs]) value
  | _ :: _ :: _ =>
    rw [hs] at h
    simp at h

theorem length_le_foldl_replaceAll (rs : List Reference) (cs : List Char) : cs.length ≤
    (rs.foldl (fun result r => replaceAll r.pattern (r.pattern ++ ['x']) result) cs).length := by
  induction rs generalizing cs with
  | nil => exact le_rfl
  | cons r rs ih => exact (Cut.length_le_replaceAll (pattern_ne_nil r) ['x'] cs).trans (ih _)

/-- Where one token stands twice, each turn finds it again in what the one before has put in. -/
theorem exists_sequential_ne_of_repeated (h : 2 ≤ (extractReferences s).length) {last : Reference}
    (hlast : last ∈ extractReferences s) (hall : ∀ r ∈ extractReferences s, r = last) :
    ∃ value, sequential value s ≠ substituted value s := by
  refine ⟨fun r => r.pattern ++ ['x'], fun heq => ?_⟩
  obtain ⟨r₁, r₂, rest, hrefs⟩ : ∃ r₁ r₂ rest, extractReferences s = r₁ :: r₂ :: rest := by
    match hrefs : extractReferences s with
    | [] | [_] => simp [hrefs] at h
    | r₁ :: r₂ :: rest => exact ⟨r₁, r₂, rest, rfl⟩
  have hfirst := hall r₁ (by simp [hrefs])
  have hsecond := hall r₂ (by simp [hrefs])
  have hwithin : last.pattern <:+: substituted (fun r => r.pattern ++ ['x']) s :=
    (List.prefix_append _ ['x']).isInfix.trans
      (infix_substituted (fun r => r.pattern ++ ['x']) hlast)
  have hlt := Cut.length_lt_replaceAll (pattern_ne_nil last) (List.cons_ne_nil 'x' []) hwithin
  rw [sequential, hrefs, List.foldl_cons, List.foldl_cons, hfirst, hsecond,
    replaceAll_pattern hlast hall (fun r => r.pattern ++ ['x'])] at heq
  have hle := length_le_foldl_replaceAll rest
    (replaceAll last.pattern (last.pattern ++ ['x']) (substituted (fun r => r.pattern ++ ['x']) s))
  rw [heq] at hle
  omega

/-- The token of the last reference, put in for another one, is gone at the end. -/
theorem exists_sequential_ne_of_other {init : List Reference} {last other : Reference}
    (hs : extractReferences s = init ++ [last]) (hother : other ∈ init) (hne : other ≠ last) :
    ∃ value, sequential value s ≠ substituted value s := by
  have hsep : Cut.Separates last.pattern (List.replicate last.pattern.length 'z') := by
    refine ⟨fun c hc hmem => ?_, fun c hc hmem => ?_, by rw [List.length_replicate]⟩
    · rw [pattern_head?, (List.mem_replicate.mp hmem).2] at hc
      cases hc
    · rw [pattern_getLast?, (List.mem_replicate.mp hmem).2] at hc
      cases hc
  refine ⟨fun r => if r = last then List.replicate last.pattern.length 'z' else last.pattern,
    fun heq => ?_⟩
  have hwithin := infix_substituted
    (fun r => if r = last then List.replicate last.pattern.length 'z' else last.pattern)
    (show other ∈ extractReferences s by simp [hs, hother])
  rw [← heq, sequential, hs, List.foldl_append, List.foldl_cons, List.foldl_nil] at hwithin
  simp only [hne, if_true, if_false] at hwithin
  exact Cut.not_infix_replaceAll (pattern_ne_nil last) hsep _ hwithin

/-- With two references or more, an output can be rescanned. -/
theorem exists_sequential_ne (h : 2 ≤ (extractReferences s).length) :
    ∃ value, sequential value s ≠ substituted value s := by
  obtain ⟨init, last, hs⟩ := List.eq_nil_or_concat (extractReferences s) |>.resolve_left
    (by intro hnil; simp [hnil] at h)
  rw [List.concat_eq_append] at hs
  by_cases hsame : ∀ r ∈ init, r = last
  · have hlast : last ∈ extractReferences s := by simp [hs]
    refine exists_sequential_ne_of_repeated h hlast fun r hr => ?_
    rw [hs, List.mem_append, List.mem_singleton] at hr
    exact hr.elim (hsame r) id
  · push Not at hsame
    obtain ⟨other, hother, hne⟩ := hsame
    exact exists_sequential_ne_of_other hs hother hne

end Tokens

section Missing

variable {stepOutputs : StepOutputs} {variables' : SortedMap String Doc} {r : Reference}

/-- The first reference that has no output. -/
def firstWithout (stepOutputs : StepOutputs) (variables' : SortedMap String Doc) :
    Option Reference :=
  (references variables').find? (fun r => (lookupError stepOutputs r).isSome)

theorem stepMissing_ne_outputMissing (stepName outputKey stepName' : String) :
    stepMissingMessage stepName ≠ outputMissingMessage outputKey stepName' := by
  intro h
  have hhead := congrArg (fun message => message.toList.head?) h
  simp only [stepMissingMessage, outputMissingMessage, toString, String.toList_append,
    List.append_assoc, List.head?_append] at hhead
  have hstep : "Step '".toList.head? = some 'S' := by decide +kernel
  have houtput : "Output '".toList.head? = some 'O' := by decide +kernel
  rw [hstep, houtput] at hhead
  simp at hhead

theorem lookupError_eq_stepMissing_iff (stepName : String) :
    lookupError stepOutputs r = some (stepMissingMessage stepName) →
      stepOutputs.get? r.stepName = none := by
  intro h
  rw [lookupError, lookup] at h
  cases hget : stepOutputs.get? r.stepName with
  | none => rfl
  | some outputs =>
    simp only [hget] at h
    cases hkey : outputs.get? r.outputKey with
    | none =>
      simp only [hkey, Option.some.injEq] at h
      exact absurd h.symm (stepMissing_ne_outputMissing _ _ _)
    | some value => simp [hkey] at h

theorem lookupError_of_missing (h : stepOutputs.get? r.stepName = none) :
    lookupError stepOutputs r = some (stepMissingMessage r.stepName) := by
  rw [lookupError, lookup, h]

theorem findSome?_lookupError (rs : List Reference) : rs.findSome? (lookupError stepOutputs) =
    (rs.find? (fun r => (lookupError stepOutputs r).isSome)).bind (lookupError stepOutputs) := by
  induction rs with
  | nil => rfl
  | cons r rs ih =>
    rw [List.findSome?_cons, List.find?_cons]
    cases h : lookupError stepOutputs r with
    | none => exact ih
    | some message => simp [h]

/-- The variables fail for a step without outputs when that is what the first reference without
an output lacks. -/
theorem fails_for_step_iff (valueText : Doc → String) :
    (∃ stepName, resolveStepReferences valueText stepOutputs variables' =
        .error (stepMissingMessage stepName)) ↔
      ∃ r, firstWithout stepOutputs variables' = some r ∧ stepOutputs.get? r.stepName = none := by
  simp only [resolveStepReferences_eq, orError_eq_error_iff, findSome?_lookupError,
    Option.bind_eq_some_iff, firstWithout]
  constructor
  · rintro ⟨stepName, r, hr, hmessage⟩
    exact ⟨r, hr, lookupError_eq_stepMissing_iff stepName hmessage⟩
  · rintro ⟨r, hr, hmissing⟩
    exact ⟨r.stepName, r, hr, lookupError_of_missing hmissing⟩

theorem unresolvedDependencies_eq_nil_iff : unresolvedDependencies stepOutputs variables' = [] ↔
    ∀ r ∈ topReferences variables', stepOutputs.get? r.stepName ≠ none := by
  have hfold (rs : List Reference) (missing : List String) :
      rs.foldl (addMissing stepOutputs) missing = [] ↔
        missing = [] ∧ ∀ r ∈ rs, stepOutputs.get? r.stepName ≠ none := by
    induction rs generalizing missing with
    | nil => simp
    | cons r rs ih =>
      have hadd : addMissing stepOutputs missing r = [] ↔
          missing = [] ∧ stepOutputs.get? r.stepName ≠ none := by
        rw [addMissing]
        cases hget : stepOutputs.get? r.stepName with
        | some outputs => simp
        | none =>
          split
          · simp
          · next hnot =>
            have hmem : r.stepName ∈ missing := by simpa using hnot
            simpa using List.ne_nil_of_mem hmem
      rw [List.foldl_cons, ih, hadd, List.forall_mem_cons, and_assoc]
  have hflat : unresolvedDependencies stepOutputs variables' =
      (topReferences variables').foldl (addMissing stepOutputs) [] := by
    rw [unresolvedDependencies, topReferences, List.foldl_flatMap]
    congr 1
    funext missing value
    cases value <;> rfl
  rw [hflat, hfold]
  exact and_iff_right rfl

theorem mem_references_of_mem_topReferences (h : r ∈ topReferences variables') :
    r ∈ references variables' := by
  obtain ⟨value, hvalue, hr⟩ := List.mem_flatMap.mp h
  cases value with
  | str s =>
    refine List.mem_flatMap.mpr ⟨s, List.mem_flatMap.mpr ⟨_, hvalue, ?_⟩, hr⟩
    rw [texts]
    exact List.mem_singleton_self s
  | _ => cases hr

theorem ready_iff (valueText : Doc → String) :
    (unresolvedDependencies stepOutputs variables' = [] ↔ ¬∃ stepName,
        resolveStepReferences valueText stepOutputs variables' =
          .error (stepMissingMessage stepName)) ↔
      ∀ r, firstWithout stepOutputs variables' = some r →
        (stepOutputs.get? r.stepName = none ↔
          ∃ r' ∈ topReferences variables', stepOutputs.get? r'.stepName = none) := by
  rw [fails_for_step_iff, unresolvedDependencies_eq_nil_iff]
  cases hfirst : firstWithout stepOutputs variables' with
  | none =>
    have hall : ∀ r ∈ topReferences variables', stepOutputs.get? r.stepName ≠ none := by
      intro r hr hmissing
      have hfound := List.find?_eq_none.mp hfirst r (mem_references_of_mem_topReferences hr)
      rw [lookupError_of_missing hmissing] at hfound
      exact hfound rfl
    simp only [reduceCtorEq, false_and, exists_false, not_false_eq_true, iff_true, false_imp_iff,
      implies_true]
    exact hall
  | some r =>
    simp only [Option.some.injEq, exists_eq_left', forall_eq']
    have hexists : (∃ r' ∈ topReferences variables', stepOutputs.get? r'.stepName = none) ↔
        ¬∀ r' ∈ topReferences variables', stepOutputs.get? r'.stepName ≠ none := by
      push Not
      exact Iff.rfl
    rw [hexists]
    tauto

end Missing

section Exact

variable {valueText : Doc → String} {stepOutputs : StepOutputs}
  {variables' : SortedMap String Doc}

/-- Whatever the outputs, the variables are resolved by the one substitution; and no step is
missing just in case the resolution does not fail for one. -/
structure ResolvesExactly (valueText : Doc → String) (stepOutputs : StepOutputs)
    (variables' : SortedMap String Doc) : Prop where
  simultaneous : ∀ outputs, resolveStepReferences valueText outputs variables' =
    substituteReferences valueText outputs variables'
  ready : unresolvedDependencies stepOutputs variables' = [] ↔
    ¬∃ stepName, resolveStepReferences valueText stepOutputs variables' =
      .error (stepMissingMessage stepName)

/-- Outputs in which every step of some references has these texts. -/
def outputsOf (rs : List Reference) (value : Reference → List Char) : StepOutputs :=
  .tabulate (rs.map Reference.stepName) (fun stepName =>
    .tabulate (rs.map Reference.outputKey) (fun outputKey =>
      .str (String.ofList (value ⟨stepName, outputKey⟩))))

theorem lookup_outputsOf {rs : List Reference} {value : Reference → List Char} {r : Reference}
    (h : r ∈ rs) : lookup (outputsOf rs value) r = .ok (.str (String.ofList (value r))) := by
  rw [lookup, outputsOf, SortedMap.get?_tabulate, if_pos (List.mem_map_of_mem h)]
  simp only [SortedMap.get?_tabulate, if_pos (List.mem_map_of_mem (f := Reference.outputKey) h)]

theorem simultaneous_iff (valueText : Doc → String) :
    (∀ outputs, resolveStepReferences valueText outputs variables' =
      substituteReferences valueText outputs variables') ↔
      ∀ s ∈ textsOf variables', (extractReferences s).length ≤ 1 := by
  simp only [resolveStepReferences_eq, substituteReferences_eq, orError_inj_iff,
    SortedMap.mapValues_eq_iff, withTexts_eq_iff, substituteText]
  constructor
  · intro h s hs
    by_contra hmany
    obtain ⟨value, hne⟩ := exists_sequential_ne (s := s) (by omega)
    have hrefs : ∀ r ∈ extractReferences s, r ∈ references variables' :=
      fun r hr => List.mem_flatMap.mpr ⟨s, hs, hr⟩
    have hfound : ∀ r ∈ references variables',
        outputText valueText (outputsOf (references variables') value) r = value r := by
      intro r hr
      rw [outputText, lookup_outputsOf hr]
      exact String.toList_ofList
    have hnone : (references variables').findSome?
        (lookupError (outputsOf (references variables') value)) = none := by
      refine List.findSome?_eq_none_iff.mpr fun r hr => ?_
      rw [lookupError, lookup_outputsOf hr]
    have hsole : soleReference s = none := by
      rw [soleReference]
      split
      · next r hr =>
        rw [hr] at hmany
        exact absurd le_rfl hmany
      · rfl
    obtain ⟨v, hv, hsv⟩ := List.mem_flatMap.mp hs
    have heq := h _ hnone v hv s hsv
    rw [outputOr, outputOr, hsole, Option.map_none] at heq
    simp only [Json.str.injEq, String.ofList_inj] at heq
    rw [sequential_congr fun r hr => hfound r (hrefs r hr),
      substituted_congr fun r hr => hfound r (hrefs r hr)] at heq
    exact hne heq
  · intro h outputs _ v hv s hs
    rw [sequential_eq_substituted (h s (List.mem_flatMap.mpr ⟨v, hv, hs⟩))]

/-- The resolution is one substitution just in case no string has two references; the missing
steps are told right just in case, where a reference has no output, its step is missing exactly
when some string at the top refers to a missing step. -/
theorem resolvesExactly_iff : ResolvesExactly valueText stepOutputs variables' ↔
    (∀ s ∈ textsOf variables', (extractReferences s).length ≤ 1) ∧
    ∀ r, firstWithout stepOutputs variables' = some r →
      (stepOutputs.get? r.stepName = none ↔
        ∃ r' ∈ topReferences variables', stepOutputs.get? r'.stepName = none) := by
  rw [← simultaneous_iff valueText, ← ready_iff valueText]
  exact ⟨fun h => ⟨h.simultaneous, h.ready⟩, fun h => ⟨h.1, h.2⟩⟩

/-- Two references side by side, where the output of the first is the token of the second. -/
def rescannedVariables : SortedMap String Doc :=
  .ofList [("url", .str "{{ steps.a.outputs.x }}{{ steps.b.outputs.y }}")]

def rescannedOutputs : StepOutputs :=
  .ofList [("a", .ofList [("x", .str "{{ steps.b.outputs.y }}")]), ("b", .ofList [("y", .str "1")])]

/-- A reference inside of an object. -/
def nestedVariables : SortedMap String Doc :=
  .ofList [("config", .obj [("id", .str "{{ steps.a.outputs.x }}")])]

theorem rescanned_and_nested_not_exact :
    (¬∀ valueText, ResolvesExactly valueText rescannedOutputs rescannedVariables) ∧
      ¬∀ valueText, ResolvesExactly valueText .empty nestedVariables := by
  constructor
  · intro h
    have heq := congrArg (fun result => result.toOption.map SortedMap.values)
      ((h fun _ => "").simultaneous rescannedOutputs)
    revert heq
    decide +kernel
  · intro h
    have hready : unresolvedDependencies .empty nestedVariables = [] := by decide +kernel
    refine (h fun _ => "").ready.mp hready ⟨"a", ?_⟩
    have herror : (match resolveStepReferences (fun _ => "") .empty nestedVariables with
        | .error message => some message
        | .ok _ => none) = some (stepMissingMessage "a") := by decide +kernel
    split at herror
    · next message hresolve =>
      rw [hresolve]
      exact congrArg _ (Option.some.inj herror)
    · cases herror

end Exact

end FlowVariables

end PangeaOperator
