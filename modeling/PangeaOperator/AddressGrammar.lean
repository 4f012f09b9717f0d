import Mathlib
import PangeaOperator.LeafAddress
import PangeaOperator.Lib.Text
import PangeaOperator.StateDocument

/-!
# The grammar of addresses

Which texts are addresses, and of which steps, said without the scanner. The scanner accepts these
texts and no others, and the printed address of an instance is read back to its index key.
-/

namespace PangeaOperator.Migrate

/-- A text between quotes and the string it stands for. A backslash takes the next character as it
is. -/
inductive Quoted : List Char → List Char → Prop
  | nil : Quoted [] []
  | escaped (c : Char) {text key : List Char} :
    Quoted text key → Quoted ('\\' :: c :: text) (c :: key)
  | plain {c : Char} {text key : List Char} :
    c ≠ '\\' → c ≠ '"' → Quoted text key → Quoted (c :: text) (c :: key)

inductive IndexText : List Char → Option String → Prop
  | none : IndexText [] none
  | quoted {text key : List Char} :
    Quoted text key → IndexText ('[' :: '"' :: (text ++ ['"', ']'])) (some (String.ofList key))
  | bare {text : List Char} : ']' ∉ text → text.head? ≠ some '"' →
    IndexText ('[' :: (text ++ [']'])) (some (String.ofList text))

/-- A name is not empty and holds no dot and no opening bracket. -/
def IsName (name : List Char) : Prop := name ≠ [] ∧ ∀ c ∈ name, nameChar c = true

instance (name : List Char) : Decidable (IsName name) :=
  decidable_of_iff (name ≠ [] ∧ name.all nameChar = true) (by simp [IsName])

inductive StepText : List Char → Step → Prop
  | intro {name index : List Char} {key : Option String} : IsName name → IndexText index key →
    StepText (name ++ index) ⟨String.ofList name, key⟩

inductive AddressText : List Char → List Step → Prop
  | last {text : List Char} {s : Step} : StepText text s → AddressText text [s]
  | cons {text rest : List Char} {s : Step} {steps : List Step} :
    StepText text s → AddressText rest steps → AddressText (text ++ '.' :: rest) (s :: steps)

section Scanner

variable {address : String} {cs key rest : List Char}

theorem Quoted.read (h : Quoted cs key) (rest : List Char) :
    quotedKey (cs ++ '"' :: rest) = some (key, rest) := by
  induction h with
  | nil => simp [quotedKey]
  | escaped c _ ih => simp [quotedKey, ih]
  | @plain c text key hslash hquote _ ih =>
    rw [List.cons_append, quotedKey, ih]
    · rfl
    · exact fun h _ => hslash h
    · exact fun _ _ h _ => hslash h
    · exact hquote

theorem quotedKey_eq_some_iff :
    quotedKey cs = some (key, rest) ↔ ∃ text, Quoted text key ∧ cs = text ++ '"' :: rest := by
  constructor
  · intro h
    induction cs using quotedKey.induct generalizing key with
    | case1 => cases h
    | case2 => cases h
    | case3 c cs ih =>
      rw [quotedKey, Option.map_eq_some_iff] at h
      obtain ⟨⟨k, r⟩, hk, he⟩ := h
      obtain ⟨rfl, rfl⟩ := Prod.mk.inj he
      obtain ⟨text, htext, rfl⟩ := ih hk
      exact ⟨_, htext.escaped c, rfl⟩
    | case4 cs =>
      cases h
      exact ⟨[], .nil, rfl⟩
    | case5 c cs h₁ h₂ h₃ ih =>
      rw [quotedKey, Option.map_eq_some_iff] at h
      · obtain ⟨⟨k, r⟩, hk, he⟩ := h
        obtain ⟨rfl, rfl⟩ := Prod.mk.inj he
        obtain ⟨text, htext, rfl⟩ := ih hk
        have hslash : c ≠ '\\' := by
          intro hc
          cases hcs : text ++ '"' :: r with
          | nil => exact h₁ hc hcs
          | cons d ds => exact h₂ d ds hc hcs
        exact ⟨_, htext.plain hslash h₃, rfl⟩
      all_goals assumption
  · rintro ⟨text, htext, rfl⟩
    exact htext.read rest

/-- What a reader leaves behind a step: nothing, or a text that opens no index. -/
def Behind (index rest : List Char) : Prop := index = [] → ∀ c cs, rest = c :: cs → c ≠ '['

theorem behind_cons (c : Char) (index rest : List Char) : Behind (c :: index) rest :=
  fun hnil => absurd hnil (List.cons_ne_nil c index)

theorem parseIndex_of_ne {c : Char} (hc : c ≠ '[') (cs : List Char) :
    parseIndex address (c :: cs) = .ok (none, c :: cs) := by
  unfold parseIndex
  split
  · next h => exact absurd (List.cons.inj h).1 hc
  · next h => exact absurd (List.cons.inj h).1 hc
  · rfl

theorem parseIndex_bare {text : List Char} (hhead : text.head? ≠ some '"') (h : ']' ∉ text) :
    parseIndex address ('[' :: (text ++ ']' :: rest)) = .ok (some (String.ofList text), rest) := by
  have hall : ∀ c ∈ text, decide (c ≠ ']') = true := by
    intro c hc
    exact decide_eq_true fun hbracket => h (hbracket ▸ hc)
  have hend : ∀ c ∈ (']' :: rest).head?, decide (c ≠ ']') = false := by simp
  unfold parseIndex
  split
  · next h =>
    have hcons := (List.cons.inj h).2
    cases text with
    | nil => cases hcons
    | cons c text => exact absurd (congrArg some (List.cons.inj hcons).1) hhead
  · next h =>
    obtain ⟨-, rfl⟩ := List.cons.inj h
    rw [dropWhile_run hall hend, takeWhile_run hall hend]
  · next h => exact absurd rfl (h _)

theorem IndexText.read {index : List Char} {key : Option String} (h : IndexText index key)
    (hbehind : Behind index rest) : parseIndex address (index ++ rest) = .ok (key, rest) := by
  cases h with
  | none =>
    cases rest with
    | nil => rfl
    | cons c rest => exact parseIndex_of_ne (hbehind rfl c rest rfl) rest
  | @quoted text key hquoted =>
    have hread := hquoted.read (']' :: rest)
    simp only [List.cons_append, List.append_assoc, List.nil_append, parseIndex, hread]
  | @bare text hbracket hhead =>
    have hread : parseIndex address ('[' :: (text ++ ']' :: rest)) =
        .ok (some (String.ofList text), rest) := parseIndex_bare hhead hbracket
    simpa using hread

theorem exists_indexText {key : Option String} (h : parseIndex address cs = .ok (key, rest)) :
    ∃ index, IndexText index key ∧ cs = index ++ rest ∧ Behind index rest := by
  unfold parseIndex at h
  split at h
  · split at h
    · cases h
    · next k r hk =>
      obtain ⟨text, htext, rfl⟩ := quotedKey_eq_some_iff.mp hk
      split at h
      · cases h
        exact ⟨_, .quoted htext, by simp, behind_cons _ _ _⟩
      · cases h
  · next cs hquote =>
    split at h
    · cases h
    · next c r hdrop =>
      cases h
      have hsplit := List.takeWhile_append_dropWhile (p := (· ≠ ']')) (l := cs)
      have hc : c = ']' := by
        have hhead := List.head?_dropWhile_not (· ≠ ']') cs
        rw [hdrop] at hhead
        simpa using hhead
      refine ⟨'[' :: (cs.takeWhile (· ≠ ']') ++ [']']), .bare ?_ ?_, ?_, behind_cons _ _ _⟩
      · intro hmem
        simpa using List.mem_takeWhile_imp hmem
      · intro hhead
        cases cs with
        | nil => cases hdrop
        | cons d cs =>
          by_cases hd : d = ']'
          · simp [hd] at hhead
          · have hquoted : d = '"' := by simpa [hd] using hhead
            exact hquote cs (hquoted ▸ rfl)
      · rw [hdrop, hc] at hsplit
        simpa using hsplit.symm
  · next hbracket =>
    cases h
    exact ⟨[], .none, rfl, fun _ c rest hrest hc => hbracket rest (hc ▸ hrest)⟩

theorem parseFrom_last {key : Option String} (hname : cs.takeWhile nameChar ≠ [])
    (h : parseIndex address (cs.dropWhile nameChar) = .ok (key, [])) :
    parseFrom address cs = .ok [⟨String.ofList (cs.takeWhile nameChar), key⟩] := by
  rw [parseFrom, if_neg hname]
  split <;> simp_all

theorem parseFrom_dot {key : Option String} {steps : List Step}
    (hname : cs.takeWhile nameChar ≠ [])
    (h : parseIndex address (cs.dropWhile nameChar) = .ok (key, '.' :: rest))
    (hrest : parseFrom address rest = .ok steps) :
    parseFrom address cs = .ok (⟨String.ofList (cs.takeWhile nameChar), key⟩ :: steps) := by
  rw [parseFrom, if_neg hname]
  split <;> simp_all

/-- A name ends where its index begins, or the next step. -/
theorem IndexText.ends_name {index : List Char} {key : Option String} (h : IndexText index key)
    (hrest : ∀ c ∈ rest.head?, c = '.') : ∀ c ∈ (index ++ rest).head?, nameChar c = false := by
  cases h with
  | none =>
    intro c hc
    rw [hrest c hc]
    rfl
  | quoted _ => simp [nameChar]
  | bare _ _ => simp [nameChar]

theorem behind_dot {index : List Char} (hrest : ∀ c ∈ rest.head?, c = '.') : Behind index rest := by
  intro _ c cs hcs hc
  have hdot := hrest c (by rw [hcs]; rfl)
  rw [hc] at hdot
  cases hdot

/-- A step is read off the text up to the next dot, or to the end. -/
theorem StepText.read {text : List Char} {s : Step} (h : StepText text s) (address : String)
    (rest : List Char) (hrest : ∀ c ∈ rest.head?, c = '.') :
    ∃ name, name ≠ [] ∧ (text ++ rest).takeWhile nameChar = name ∧
      parseIndex address ((text ++ rest).dropWhile nameChar) = .ok (s.key, rest) ∧
      s.name = String.ofList name := by
  obtain @⟨name, index, key, ⟨hne, hname⟩, hindex⟩ := h
  have hend := hindex.ends_name hrest
  refine ⟨name, hne, ?_, ?_, rfl⟩
  · rw [List.append_assoc, takeWhile_run hname hend]
  · rw [List.append_assoc, dropWhile_run hname hend, hindex.read (behind_dot hrest)]

theorem AddressText.parse {steps : List Step} (h : AddressText cs steps) :
    parseFrom address cs = .ok steps := by
  induction h with
  | @last text s hstep =>
    obtain ⟨name, hne, htake, hindex, hs⟩ := hstep.read address [] (by simp)
    rw [List.append_nil] at htake hindex
    rw [parseFrom_last (htake ▸ hne) hindex, htake, ← hs]
  | @cons text rest s steps hstep _ ih =>
    obtain ⟨name, hne, htake, hindex, hs⟩ := hstep.read address ('.' :: rest) (by simp)
    rw [parseFrom_dot (htake ▸ hne) hindex ih, htake, ← hs]

theorem addressText_of_parseFrom {steps : List Step} (h : parseFrom address cs = .ok steps) :
    AddressText cs steps := by
  induction hlen : cs.length using Nat.strongRecOn generalizing cs steps with
  | ind n ih =>
    rw [parseFrom] at h
    split at h
    · cases h
    · next hne =>
      have hsplit := List.takeWhile_append_dropWhile (p := nameChar) (l := cs)
      have hname : IsName (cs.takeWhile nameChar) := ⟨hne, fun c hc => List.mem_takeWhile_imp hc⟩
      split at h
      · cases h
      · next key hkey =>
        cases h
        obtain ⟨index, hindex, htext, -⟩ := exists_indexText hkey
        have hstep := StepText.intro hname hindex
        rw [htext, List.append_nil] at hsplit
        rw [hsplit] at hstep
        exact .last hstep
      · next key rest hkey =>
        obtain ⟨index, hindex, htext, -⟩ := exists_indexText hkey
        have hstep := StepText.intro hname hindex
        have hshort := congrArg List.length hsplit
        rw [htext] at hsplit hshort
        simp only [List.length_append, List.length_cons] at hshort
        split at h
        · cases h
        · next tail htail =>
          cases h
          have hcons := AddressText.cons hstep (ih rest.length (by omega) htail rfl)
          rwa [List.append_assoc, hsplit] at hcons
      · cases h

theorem parseSteps_eq_ok_iff {address : String} {steps : List Step} :
    parseSteps address = .ok steps ↔ AddressText address.toList steps := by
  unfold parseSteps
  split
  · next hempty =>
    subst hempty
    refine iff_of_false nofun (fun h => ?_)
    have hparse : parseFrom "" "".toList = .ok steps := h.parse
    rw [String.toList_empty, parseFrom] at hparse
    cases hparse
  · exact ⟨addressText_of_parseFrom, AddressText.parse⟩

end Scanner

section Printer

/-- Both replacements together escape backslashes and quotes. -/
theorem quoted_escape (s : List Char) :
    Quoted (replaceChar '"' ['\\', '"'] (replaceChar '\\' ['\\', '\\'] s)) s := by
  unfold replaceChar
  induction s with
  | nil => exact .nil
  | cons c s ih =>
    rw [List.flatMap_cons, List.flatMap_append]
    by_cases hslash : c = '\\'
    · subst hslash
      exact ih.escaped '\\'
    · by_cases hquote : c = '"'
      · subst hquote
        exact ih.escaped '"'
      · rw [if_neg hslash, List.flatMap_singleton, if_neg hquote]
        exact ih.plain hslash hquote

/-- Names joined by dots. -/
def IsBase (names : List String) : Prop := names ≠ [] ∧ ∀ n ∈ names, IsName n.toList

/-- The steps of names with an index behind the last one. -/
def stepsOf (key : Option String) : List String → List Step
  | [] => []
  | [n] => [⟨n, key⟩]
  | n :: ns => ⟨n, none⟩ :: stepsOf key ns

theorem addressText_base {names : List String} (h : IsBase names) {index : List Char}
    {key : Option String} (hindex : IndexText index key) :
    AddressText ((".".intercalate names).toList ++ index) (stepsOf key names) := by
  obtain ⟨hne, hnames⟩ := h
  induction names with
  | nil => exact absurd rfl hne
  | cons n names ih =>
    have hname := hnames n List.mem_cons_self
    cases names with
    | nil =>
      have hstep := StepText.intro hname hindex
      rw [String.ofList_toList] at hstep
      simpa [stepsOf] using AddressText.last hstep
    | cons m names =>
      have hstep := StepText.intro hname IndexText.none
      rw [String.ofList_toList, List.append_nil] at hstep
      have hrest := ih (List.cons_ne_nil m names) fun n hn => hnames n (List.mem_cons_of_mem _ hn)
      simpa [stepsOf] using AddressText.cons hstep hrest

theorem findSome_stepsOf {names : List String} (hne : names ≠ []) (key : String) :
    (stepsOf (some key) names).findSome? Step.key = some key := by
  induction names with
  | nil => exact absurd rfl hne
  | cons n names ih =>
    cases names with
    | nil => rfl
    | cons m names => exact ih (List.cons_ne_nil m names)

/-- The printed address of an instance is read back to its index key. -/
theorem leafKey_instanceAddress {names : List String} (h : IsBase names) {inst : Value}
    {key : String} (hinst : inst.get? "index_key" = some (.str key)) :
    leafKey (instanceAddress (".".intercalate names) inst) = .ok (.keyed key) := by
  have htext := addressText_base h (.quoted (quoted_escape key.toList))
  rw [String.ofList_toList] at htext
  have hparse : parseSteps (instanceAddress (".".intercalate names) inst) =
      .ok (stepsOf (some key) names) := by
    rw [parseSteps_eq_ok_iff, instanceAddress, hinst]
    simpa [indexText] using htext
  unfold leafKey
  rw [hparse]
  dsimp only
  rw [findSome_stepsOf h.1]

end Printer

/-- The scanner accepts exactly the texts of the grammar, and inverts the printer. -/
theorem addresses_read_and_print :
    (∀ address steps, parseSteps address = .ok steps ↔ AddressText address.toList steps) ∧
    (∀ names, IsBase names → ∀ key : String,
      leafKey (instanceAddress (".".intercalate names) (.obj [("index_key", .str key)])) =
        .ok (.keyed key)) ∧
    ∀ names, IsBase names → ∀ key key' : String,
      instanceAddress (".".intercalate names) (.obj [("index_key", .str key)]) =
        instanceAddress (".".intercalate names) (.obj [("index_key", .str key')]) → key = key' := by
  have hprint (names : List String) (h : IsBase names) (key : String) :
      leafKey (instanceAddress (".".intercalate names) (.obj [("index_key", .str key)])) =
        .ok (.keyed key) := leafKey_instanceAddress h rfl
  refine ⟨fun address steps => parseSteps_eq_ok_iff, hprint, fun names h key key' heq => ?_⟩
  have hread := hprint names h key
  rw [heq, hprint names h key'] at hread
  cases hread
  rfl

theorem dotted_key_is_read_back :
    leafKey (instanceAddress (".".intercalate ["zone", "a"])
      (.obj [("index_key", .str "x.y[\"]")])) = .ok (.keyed "x.y[\"]") := by
  exact addresses_read_and_print.2.1 ["zone", "a"] ⟨by decide, by decide +kernel⟩ _

end PangeaOperator.Migrate
