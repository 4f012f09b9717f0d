import Mathlib
import PangeaOperator.AddressGrammar
import PangeaOperator.LeafComponents
import PangeaOperator.LeafPlan

/-!
# Data sources by their addresses

Behind its modules the address of a data source goes on with a `data` step. `is_data` looks for it
in the text, at the top and behind the first dot of what follows `module.`; a module deeper down is
not looked into, and a dot within an index is taken for the end of a step.
-/

namespace PangeaOperator.Migrate

/-- The steps behind the leading modules, each a `module` step and the named one that follows. -/
def afterModules : List Step → List Step
  | s :: m :: rest => if s = ⟨"module", none⟩ then afterModules rest else s :: m :: rest
  | steps => steps

def isDataSource (steps : List Step) : Bool := (afterModules steps).head?.any (·.name = "data")

def Managed (address : String) : Prop :=
  ∃ steps, parseSteps address = .ok steps ∧ isDataSource steps = false

/-- The text of the index behind `module.` and a name. -/
def topIndex (address : String) : List Char :=
  let cs := (address.toList.drop "module.".toList.length).dropWhile nameChar
  match parseIndex address cs with
  | .ok (_, rest) => cs.take (cs.length - rest.length)
  | .error _ => []

/-- The first dot of the top module's index has `data.` behind it. -/
def Mistaken (address : String) : Prop :=
  "module.".toList.isPrefixOf address.toList = true ∧
    ".data.".toList.isPrefixOf ((topIndex address).dropWhile (· ≠ '.')) = true

/-- The data step has no index and is not the last, and it stands at the top, or behind one module
whose index holds no dot. -/
def Plain (address : String) (steps : List Step) : Prop :=
  (∃ next rest, steps = ⟨"data", none⟩ :: next :: rest) ∨
    (∃ m next rest, steps = ⟨"module", none⟩ :: m :: ⟨"data", none⟩ :: next :: rest) ∧
      '.' ∉ topIndex address

section Text

variable {address : String} {w cs rest : List Char} {steps : List Step}

theorem prefix_iff : w.isPrefixOf cs = true ↔ ∃ r, cs = w ++ r := by
  rw [List.isPrefixOf_iff_prefix]
  exact exists_congr fun r => eq_comm

theorem stripPrefix_append (w r : List Char) : stripPrefix w (w ++ r) = some r := by
  unfold stripPrefix
  rw [if_pos (prefix_iff.mpr ⟨r, rfl⟩), List.drop_left]

theorem afterDot_append (h : '.' ∉ w) (r : List Char) : afterDot (w ++ '.' :: r) = some r := by
  have hall : ∀ c ∈ w, decide (c ≠ '.') = true :=
    fun c hc => decide_eq_true fun hdot => h (hdot ▸ hc)
  unfold afterDot
  rw [dropWhile_run hall (by simp)]

theorem afterDot_none (h : '.' ∉ cs) : afterDot cs = none := by
  have hall : ∀ c ∈ cs, decide (c ≠ '.') = true :=
    fun c hc => decide_eq_true fun hdot => h (hdot ▸ hc)
  have hrun := dropWhile_run (r := []) hall (by simp)
  rw [List.append_nil] at hrun
  unfold afterDot
  rw [hrun]

/-- A name before a dot is a step without an index. -/
theorem steps_of_word (hw : IsName w) (h : AddressText (w ++ '.' :: rest) steps) :
    ∃ ss, steps = ⟨String.ofList w, none⟩ :: ss ∧ AddressText rest ss := by
  have hend : ∀ c ∈ ('.' :: rest).head?, nameChar c = false := by simp [nameChar]
  have hparse : parseFrom "" (w ++ '.' :: rest) = .ok steps := h.parse
  have hindex : parseIndex "" ('.' :: rest) = .ok (none, '.' :: rest) :=
    parseIndex_of_ne (by decide) rest
  rw [parseFrom, takeWhile_run hw.2 hend, dropWhile_run hw.2 hend, if_neg hw.1] at hparse
  split at hparse
  · cases hparse
  · next hkey => rw [hindex] at hkey; cases hkey
  · next key tail hkey =>
    rw [hindex] at hkey
    obtain ⟨rfl, hrest⟩ := Prod.mk.inj (Except.ok.inj hkey)
    obtain ⟨-, rfl⟩ := List.cons.inj hrest
    split at hparse
    · cases hparse
    · next ss hss =>
      cases hparse
      exact ⟨ss, rfl, addressText_of_parseFrom hss⟩
  · next c _ hc hkey =>
    rw [hindex] at hkey
    obtain ⟨-, hrest⟩ := Prod.mk.inj (Except.ok.inj hkey)
    exact absurd (List.cons.inj hrest).1.symm hc

/-- The first step and what stands behind it. -/
theorem exists_first (h : AddressText cs steps) : ∃ name index key ss tail,
    IsName name ∧ IndexText index key ∧ cs = name ++ index ++ tail ∧
      steps = ⟨String.ofList name, key⟩ :: ss ∧
        (tail = [] ∧ ss = [] ∨ ∃ rest, tail = '.' :: rest ∧ AddressText rest ss) := by
  cases h with
  | last hstep =>
    obtain @⟨name, index, key, hname, hindex⟩ := hstep
    exact ⟨name, index, key, [], [], hname, hindex, by simp, rfl, .inl ⟨rfl, rfl⟩⟩
  | @cons text rest s ss hstep hrest =>
    obtain @⟨name, index, key, hname, hindex⟩ := hstep
    exact ⟨name, index, key, ss, '.' :: rest, hname, hindex, rfl, rfl, .inr ⟨rest, rfl, hrest⟩⟩

/-- Conversely, a step without an index and with a step behind it. -/
theorem text_of_word {ss : List Step} (h : AddressText cs (⟨String.ofList w, none⟩ :: ss))
    (hne : ss ≠ []) : ∃ rest, cs = w ++ '.' :: rest := by
  obtain ⟨name, index, key, ss', tail, -, hindex, rfl, hsteps, htail⟩ := exists_first h
  obtain ⟨hstep, rfl⟩ := List.cons.inj hsteps
  obtain ⟨hname, rfl⟩ := Step.mk.inj hstep
  have hsame : w = name := by simpa using congrArg String.toList hname
  cases hindex
  rcases htail with ⟨-, hnil⟩ | ⟨rest, rfl, -⟩
  · exact absurd hnil hne
  · exact ⟨rest, by simp [hsame]⟩

/-- A text goes on behind a word and a dot when the word is the first step, and not the last. -/
theorem word_iff (hw : IsName w) (h : AddressText cs steps) : (w ++ ['.']).isPrefixOf cs = true ↔
    ∃ next ss, steps = ⟨String.ofList w, none⟩ :: next :: ss := by
  rw [prefix_iff]
  constructor
  · rintro ⟨r, rfl⟩
    rw [List.append_assoc] at h
    obtain ⟨ss, rfl, hss⟩ := steps_of_word hw h
    cases hss with
    | last _ => exact ⟨_, [], rfl⟩
    | cons _ _ => exact ⟨_, _, rfl⟩
  · rintro ⟨next, ss, rfl⟩
    obtain ⟨r, rfl⟩ := text_of_word h (List.cons_ne_nil next ss)
    exact ⟨r, by simp⟩

/-- A prefix that lacks an item of the first part lies within it. -/
theorem prefix_append_iff {c : Char} (hc : c ∈ cs) (hw : c ∉ w) :
    w.isPrefixOf (cs ++ rest) = true ↔ w.isPrefixOf cs = true := by
  rw [List.isPrefixOf_iff_prefix, List.isPrefixOf_iff_prefix]
  constructor
  · intro h
    rcases List.prefix_or_prefix_of_prefix h (List.prefix_append cs rest) with h | h
    · exact h
    · exact absurd (h.subset hc) hw
  · exact fun h => h.trans (List.prefix_append cs rest)

theorem bracket_of_dot {index : List Char} {key : Option String} (h : IndexText index key)
    {pre post : List Char} (hsplit : index = pre ++ '.' :: post) : ']' ∈ post := by
  have hlast (body : List Char) (hend : body ++ [']'] = pre ++ '.' :: post) : ']' ∈ post := by
    have hlast := congrArg List.getLast? hend
    rw [List.getLast?_concat, List.getLast?_append] at hlast
    cases post with
    | nil => simp at hlast
    | cons c post =>
      rw [List.getLast?_cons_cons] at hlast
      exact List.mem_of_getLast? (by simpa using hlast.symm)
  cases h with
  | none => simp at hsplit
  | @quoted text key _ => exact hlast ('[' :: '"' :: (text ++ ['"'])) (by simpa using hsplit)
  | @bare text _ _ => exact hlast ('[' :: text) (by simpa using hsplit)

theorem topIndex_eq {name index tail : List Char} {key : Option String}
    (haddress : address.toList = "module.".toList ++ (name ++ index ++ tail)) (hname : IsName name)
    (hindex : IndexText index key) (htail : ∀ c ∈ tail.head?, c = '.') :
    topIndex address = index := by
  have hdrop :
      (address.toList.drop "module.".toList.length).dropWhile nameChar = index ++ tail := by
    rw [haddress, List.drop_left, List.append_assoc,
      dropWhile_run hname.2 (hindex.ends_name htail)]
  unfold topIndex
  dsimp only
  rw [hdrop, hindex.read (behind_dot htail)]
  simp

theorem plain_module_iff {m : Step} {ss : List Step} :
    Plain address (⟨"module", none⟩ :: m :: ss) ↔
      (∃ next rest, ss = ⟨"data", none⟩ :: next :: rest) ∧ '.' ∉ topIndex address := by
  have hne : (⟨"module", none⟩ : Step) ≠ ⟨"data", none⟩ := by decide
  unfold Plain
  simp only [List.cons.injEq, hne, false_and, exists_false, false_or, true_and, exists_and_left,
    exists_eq_left']

theorem not_dot_of_isName {name : List Char} (h : IsName name) : '.' ∉ name :=
  fun hmem => by simpa [nameChar] using h.2 _ hmem

section Module

variable {name index tail : List Char} {key : Option String} {ss : List Step}
  (haddress : address.toList = "module.".toList ++ (name ++ index ++ tail)) (hname : IsName name)

include haddress hname

/-- In an index the text goes on behind the index's own dot. -/
theorem data_in_index_iff (hindex : IndexText index key) (htail : ∀ c ∈ tail.head?, c = '.')
    (hdot : '.' ∈ index) :
    "data.".toList.isPrefixOf ((afterDot (name ++ index ++ tail)).getD address.toList) = true ↔
      Mistaken address := by
  obtain ⟨pre, post, hsplit, hpre⟩ := List.eq_append_cons_of_mem hdot
  have hafter : afterDot (name ++ index ++ tail) = some (post ++ tail) := by
    have hsame : name ++ index ++ tail = (name ++ pre) ++ '.' :: (post ++ tail) := by
      simp [hsplit]
    rw [hsame]
    exact afterDot_append (by simp [not_dot_of_isName hname, hpre]) _
  have hdrop : index.dropWhile (· ≠ '.') = '.' :: post := by
    rw [hsplit]
    exact dropWhile_run (fun c hc => decide_eq_true fun hcdot => hpre (hcdot ▸ hc)) (by simp)
  have hmod : "module.".toList.isPrefixOf address.toList = true := prefix_iff.mpr ⟨_, haddress⟩
  rw [hafter, Option.getD_some, prefix_append_iff (bracket_of_dot hindex hsplit) (by decide),
    Mistaken, topIndex_eq haddress hname hindex htail, hdrop, and_iff_right hmod]
  rfl

theorem not_mistaken (hindex : IndexText index key) (htail : ∀ c ∈ tail.head?, c = '.')
    (hdot : '.' ∉ index) : ¬Mistaken address := by
  rintro ⟨-, hprefix⟩
  have hdrop : index.dropWhile (· ≠ '.') = [] := List.dropWhile_eq_nil_iff.mpr
    fun c hc => decide_eq_true fun hcdot => hdot (hcdot ▸ hc)
  rw [topIndex_eq haddress hname hindex htail, hdrop] at hprefix
  cases hprefix

/-- Behind an index without a dot the text goes on with the next step. -/
theorem data_behind_step_iff (hdot : '.' ∉ index)
    (htail : tail = [] ∧ ss = [] ∨ ∃ rest, tail = '.' :: rest ∧ AddressText rest ss) :
    "data.".toList.isPrefixOf ((afterDot (name ++ index ++ tail)).getD address.toList) = true ↔
      ∃ next rest, ss = ⟨"data", none⟩ :: next :: rest := by
  have hnodot : '.' ∉ name ++ index := by simp [not_dot_of_isName hname, hdot]
  rcases htail with ⟨rfl, rfl⟩ | ⟨rest, rfl, hss⟩
  · rw [List.append_nil, afterDot_none hnodot, Option.getD_none, haddress]
    exact iff_of_false Bool.false_ne_true (by simp)
  · rw [afterDot_append hnodot, Option.getD_some]
    exact word_iff (w := ['d', 'a', 't', 'a']) (by decide +kernel) hss

end Module

/-- What `is_data` finds in the text of an address that reads. -/
theorem isData_iff (h : parseSteps address = .ok steps) :
    isData address = true ↔ Plain address steps ∨ Mistaken address := by
  have haddress := parseSteps_eq_ok_iff.mp h
  have hdata : "data.".toList.isPrefixOf address.toList = true ↔
      ∃ next ss, steps = ⟨"data", none⟩ :: next :: ss :=
    word_iff (w := ['d', 'a', 't', 'a']) (by decide +kernel) haddress
  have hmodule : "module.".toList.isPrefixOf address.toList = true ↔
      ∃ next ss, steps = ⟨"module", none⟩ :: next :: ss :=
    word_iff (w := ['m', 'o', 'd', 'u', 'l', 'e']) (by decide +kernel) haddress
  unfold isData
  dsimp only
  by_cases hmod : "module.".toList.isPrefixOf address.toList = true
  · obtain ⟨rest, hrest⟩ := prefix_iff.mp hmod
    obtain ⟨ss, rfl, hss⟩ := steps_of_word (w := ['m', 'o', 'd', 'u', 'l', 'e']) (by decide +kernel)
      (hrest ▸ haddress)
    have htop : "data.".toList.isPrefixOf address.toList = false := by
      rw [hrest]
      rfl
    have hstrip : stripPrefix "module.".toList address.toList = some rest := by
      rw [hrest, stripPrefix_append]
    have hword : String.ofList ['m', 'o', 'd', 'u', 'l', 'e'] = "module" := rfl
    rw [htop, Bool.false_or, hstrip, Option.bind_some, hword]
    obtain ⟨name, index, key, ss', tail, hname, hindex, rfl, rfl, htail⟩ := exists_first hss
    have hdots : ∀ c ∈ tail.head?, c = '.' := by
      rcases htail with ⟨rfl, -⟩ | ⟨rest, rfl, -⟩ <;> simp
    rw [plain_module_iff, topIndex_eq hrest hname hindex hdots]
    by_cases hdot : '.' ∈ index
    · rw [data_in_index_iff hrest hname hindex hdots hdot]
      exact (or_iff_right fun hplain => hplain.2 hdot).symm
    · rw [or_iff_left (not_mistaken hrest hname hindex hdots hdot), and_iff_left hdot]
      exact data_behind_step_iff hrest hname hdot htail
  · have hnone : stripPrefix "module.".toList address.toList = none := if_neg hmod
    rw [hnone, Option.bind_none, Option.getD_none, Bool.or_self, hdata]
    constructor
    · exact fun hplain => .inl (.inl hplain)
    · rintro ((hplain | ⟨⟨m, next, rest, hsteps⟩, -⟩) | hmistaken)
      · exact hplain
      · exact absurd (hmodule.mpr ⟨m, _, hsteps⟩) hmod
      · exact absurd hmistaken.1 hmod

end Text

/-- A data source stands plainly in its address, unless a dot is mistaken; and a dot is mistaken
only in the address of a data source. -/
def WellRead (address : String) : Prop := ∀ steps, parseSteps address = .ok steps →
  (isDataSource steps = true → Plain address steps ∨ Mistaken address) ∧
    (Mistaken address → isDataSource steps = true)

/-- Data sources are told from managed resources, in the keys that are counted and in a partition
too. -/
structure DataRecognised (as : List String) : Prop where
  recognised : ∀ a ∈ as, ∀ steps, parseSteps a = .ok steps → (isData a = true ↔ isDataSource steps)
  leafKeys : ∃ keys, distinctLeafKeys as = .ok keys ∧
    ∀ k, k ∈ keys.keys ↔ ∃ a ∈ as, Managed a ∧ leafKey a = .ok k
  partition : ∀ p, Partition.build as = .ok p → ∀ a, a ∈ p.addresses ↔ a ∈ as ∧ Managed a

section Recognised

variable {as : List String}

theorem isDataSource_of_plain {address : String} {steps : List Step} (h : Plain address steps) :
    isDataSource steps = true := by
  rcases h with ⟨next, rest, rfl⟩ | ⟨⟨m, next, rest, rfl⟩, -⟩
  · rw [isDataSource, afterModules, if_neg (by decide)]
    rfl
  · rw [isDataSource, afterModules, if_pos rfl, afterModules, if_neg (by decide)]
    rfl

theorem keysFrom_ok (hread : ∀ a ∈ as, leafKey a = .ok (keyOf a)) (m : SortedMap LeafKey Unit) :
    ∃ keys, keysFrom m as = .ok keys ∧
      ∀ k, k ∈ keys.keys ↔ (∃ a ∈ as, leafKey a = .ok k) ∨ k ∈ m.keys := by
  induction as generalizing m with
  | nil => exact ⟨m, rfl, fun k => by simp⟩
  | cons a as ih =>
    have hkey := hread a List.mem_cons_self
    obtain ⟨keys, hkeys, hmem⟩ :=
      ih (fun b hb => hread b (List.mem_cons_of_mem a hb)) (m.insert (keyOf a) ())
    refine ⟨keys, ?_, fun k => ?_⟩
    · rw [keysFrom, hkey]
      exact hkeys
    · rw [hmem, SortedMap.insert, SortedMap.mem_keys_upsert, List.exists_mem_cons_iff, hkey,
        Except.ok.injEq, eq_comm (a := k)]
      exact or_left_comm.trans or_assoc.symm

/-- Recognised data sources are left out, and nothing else is. -/
theorem dataRecognised_of (hread : ∀ a ∈ as, ∃ steps, parseSteps a = .ok steps)
    (h : ∀ a ∈ as, ∀ steps, parseSteps a = .ok steps → (isData a = true ↔ isDataSource steps)) :
    DataRecognised as := by
  have hmanaged : ∀ a ∈ as, ((!isData a) = true ↔ Managed a) := by
    intro a ha
    obtain ⟨steps, hsteps⟩ := hread a ha
    have hiff := h a ha steps hsteps
    constructor
    · intro hno
      refine ⟨steps, hsteps, ?_⟩
      cases hsource : isDataSource steps with
      | false => rfl
      | true => rw [hiff.mpr hsource] at hno; cases hno
    · rintro ⟨steps', hsteps', hsource⟩
      rw [hsteps] at hsteps'
      cases hsteps'
      cases hdata : isData a with
      | false => rfl
      | true => rw [hiff.mp hdata] at hsource; cases hsource
  have hmem (a : String) : a ∈ as.filter (!isData ·) ↔ a ∈ as ∧ Managed a := by
    rw [List.mem_filter]
    exact and_congr_right (hmanaged a)
  refine ⟨h, ?_, fun p hp a => ?_⟩
  · have hkeys : ∀ a ∈ as.filter (!isData ·), leafKey a = .ok (keyOf a) := by
      intro a ha
      obtain ⟨steps, hsteps⟩ := hread a (List.mem_filter.mp ha).1
      exact leafKey_of_parseSteps hsteps
    obtain ⟨keys, hok, hcounted⟩ := keysFrom_ok hkeys SortedMap.empty
    refine ⟨keys, hok, fun k => ?_⟩
    rw [hcounted]
    simp only [hmem, and_assoc]
    exact or_iff_left List.not_mem_nil
  · rw [(Partition.build_spec hp).1.mem_iff, hmem]

/-- Data sources are recognised exactly where addresses are well read. -/
theorem data_recognised_iff (hread : ∀ a ∈ as, ∃ steps, parseSteps a = .ok steps) :
    DataRecognised as ↔ ∀ a ∈ as, WellRead a := by
  constructor
  · intro h a ha steps hsteps
    have hiff := (isData_iff hsteps).symm.trans (h.recognised a ha steps hsteps)
    exact ⟨hiff.mpr, fun hmistaken => hiff.mp (.inr hmistaken)⟩
  · intro h
    refine dataRecognised_of hread fun a ha steps hsteps => ?_
    obtain ⟨hfound, hmistaken⟩ := h a ha steps hsteps
    rw [isData_iff hsteps]
    constructor
    · rintro (hplain | hm)
      · exact isDataSource_of_plain hplain
      · exact hmistaken hm
    · exact hfound

end Recognised

def amiAddresses : List String := ["data.aws_ami.x", "module.m[\"k\"].data.aws_ami.x"]

theorem ami_data_recognised : DataRecognised amiAddresses := by
  have hplain : parseSteps "data.aws_ami.x" =
      .ok [⟨"data", none⟩, ⟨"aws_ami", none⟩, ⟨"x", none⟩] := by decide +kernel
  have hmodule : parseSteps "module.m[\"k\"].data.aws_ami.x" =
      .ok [⟨"module", none⟩, ⟨"m", some "k"⟩, ⟨"data", none⟩, ⟨"aws_ami", none⟩, ⟨"x", none⟩] := by
    decide +kernel
  refine (data_recognised_iff fun a ha => ?_).mpr fun a ha steps hsteps => ?_
  · rcases List.mem_cons.mp ha with rfl | ha
    · exact ⟨_, hplain⟩
    · exact ⟨_, List.mem_singleton.mp ha ▸ hmodule⟩
  · rcases List.mem_cons.mp ha with rfl | ha
    · cases hplain.symm.trans hsteps
      exact ⟨fun _ => .inl (.inl ⟨_, _, rfl⟩), fun _ => rfl⟩
    · rw [List.mem_singleton.mp ha] at hsteps ⊢
      cases hmodule.symm.trans hsteps
      exact ⟨fun _ => .inl (.inr ⟨⟨_, _, _, rfl⟩, by decide +kernel⟩), fun _ => rfl⟩

/-- A data source of an inner module is counted as a leaf. -/
theorem inner_data_source_is_missed :
    ∃ as, (∀ a ∈ as, ∃ steps, parseSteps a = .ok steps) ∧ ¬ DataRecognised as := by
  have hsteps : parseSteps "module.vpc.module.inner.data.aws_ami.x" = .ok [⟨"module", none⟩,
      ⟨"vpc", none⟩, ⟨"module", none⟩, ⟨"inner", none⟩, ⟨"data", none⟩, ⟨"aws_ami", none⟩,
      ⟨"x", none⟩] := by decide +kernel
  refine ⟨["module.vpc.module.inner.data.aws_ami.x"], ?_, fun h => ?_⟩
  · intro a ha
    rw [List.mem_singleton.mp ha]
    exact ⟨_, hsteps⟩
  · have hdata := (h.recognised _ List.mem_cons_self _ hsteps).mpr (by decide)
    exact absurd hdata (by decide +kernel)

end PangeaOperator.Migrate
