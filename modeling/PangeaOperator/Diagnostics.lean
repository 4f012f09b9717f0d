import PangeaOperator.AddressGrammar
import PangeaOperator.Conflict

/-!
# Diagnostics printed and read back

The diagnostics of a failed apply as OpenTofu prints them, bare or in a box, and what the scan of
`controller/conflict.rs` makes of the text. A line after the address that reads like the address
line of another diagnostic is the only one the scan takes for it.
-/

namespace PangeaOperator.Conflict

open Migrate (AddressText StepText IndexText IsName Quoted Step nameChar)

/-- The address of a resource: names without blanks or commas, and any index keys, on one line. -/
structure ResourceAddress where
  text : List Char
  steps : List Step
  grammar : AddressText text steps
  names : ∀ s ∈ steps, ∀ c ∈ s.name.toList, isWhitespace c = false ∧ c ≠ ','
  oneLine : '\n' ∉ text

/-- A diagnostic with its parts as they are printed, in a box or not. -/
structure Diagnostic where
  framed : Bool
  summary : List Char
  body : List (List Char)
  address : Option ResourceAddress
  trailing : List (List Char)

/-- A line that ends where its line feed stands. -/
def IsLine (l : List Char) : Prop := '\n' ∉ l ∧ l.getLast? ≠ some '\r'

abbrev opensBlock (l : List Char) : Prop := "Error:".toList.isPrefixOf l = true

abbrev readsAddress (l : List Char) : Prop := "with ".toList.isPrefixOf l = true

namespace Diagnostic

variable (d : Diagnostic)

def printLine (l : List Char) : List Char := if d.framed then '│' :: ' ' :: l else l

/-- What stands under the frame. -/
def shown (l : List Char) : List Char := stripDiagFrame (d.printLine l)

def summaryLine : List Char := "Error:".toList ++ d.summary

def addressLines : List (List Char) :=
  (d.address.map (fun a => "  with ".toList ++ a.text ++ [','])).toList

/-- The lines between the caps of the box. -/
def printed : List (List Char) :=
  d.summaryLine :: (d.body ++ d.addressLines ++ d.trailing)

def printedLines : List (List Char) :=
  (if d.framed then [['╷']] else []) ++ d.printed.map d.printLine ++
    (if d.framed then [['╵']] else [])

/-- The text of a diagnostic, on one line. -/
def joined : String := String.ofList ([' '].intercalate (d.summaryLine :: d.body.map d.shown))

/-- A diagnostic of these parts: they are lines, and none of the body opens or closes a block. -/
structure WellFormed : Prop where
  lines : ∀ l ∈ d.summary :: (d.body ++ d.trailing), IsLine l
  body : ∀ l ∈ d.body, ¬opensBlock (d.shown l) ∧ ¬readsAddress (d.shown l)

/-- No trailing line reads as the address of a block that is open: that of the diagnostic, if it
has no address, or one that a trailing line opens. -/
def TrailsQuietly : Prop :=
  ∀ before l after, d.trailing = before ++ l :: after → readsAddress (d.shown l) →
    d.address.isSome ∧ ∀ e ∈ before, ¬opensBlock (d.shown e)

end Diagnostic

/-- The text that is printed for some diagnostics. -/
def output (ds : List Diagnostic) : String :=
  String.ofList ((ds.flatMap Diagnostic.printedLines).flatMap (fun l => l ++ ['\n']))

/-- The scan of `classify_apply_conflicts`, which classes a block where it closes. -/
def scanConflicts : Option (List Char) → List (List Char) → List (String × ConflictKind)
  | _, [] => []
  | current, line :: rest =>
    if "Error:".toList.isPrefixOf line then scanConflicts (some line) rest
    else match current with
      | none => scanConflicts none rest
      | some text =>
        if "with ".toList.isPrefixOf line then
          let address := withAddress line
          if address.isEmpty then scanConflicts none rest
          else (String.ofList address, classifyKind (String.ofList text)) :: scanConflicts none rest
        else scanConflicts (some (text ++ ' ' :: line)) rest

/-- The two copies of the scan find the same blocks. -/
theorem scanConflicts_eq (current : Option (List Char)) (ls : List (List Char)) :
    scanConflicts current ls =
      (scanBlocks current ls).map (fun b => (b.1, classifyKind b.2)) := by
  induction ls generalizing current with
  | nil => rfl
  | cons line rest ih =>
    unfold scanConflicts scanBlocks
    split
    · exact ih (some line)
    · cases current with
      | none => exact ih none
      | some text =>
        dsimp only
        split
        · split
          · exact ih none
          · rw [List.map_cons, ih none]
        · exact ih (some (text ++ ' ' :: line))

theorem classifyApplyConflicts_eq_scan (text : String) :
    classifyApplyConflicts text =
      scanConflicts none ((lines [] text.toList).map stripDiagFrame) := by
  rw [classifyApplyConflicts, applyErrorBlocks, scanConflicts_eq]

section Scan

variable {current : Option (List Char)} {line text : List Char} (rest : List (List Char))

theorem scanBlocks_opens (h : opensBlock line) :
    scanBlocks current (line :: rest) = scanBlocks (some line) rest := by
  cases current with
  | none => rw [scanBlocks, if_pos h]
  | some text => rw [scanBlocks, if_pos h]

/-- A line that is neither goes to the text of the block that is open. -/
theorem scanBlocks_plain (hopens : ¬opensBlock line) (hcloses : ¬readsAddress line) :
    scanBlocks (some text) (line :: rest) = scanBlocks (some (text ++ ' ' :: line)) rest := by
  rw [scanBlocks, if_neg hopens]
  exact if_neg hcloses

theorem scanBlocks_address (hopens : ¬opensBlock line) (hcloses : readsAddress line)
    (hne : (withAddress line).isEmpty = false) :
    scanBlocks (some text) (line :: rest) =
      (String.ofList (withAddress line), String.ofList text) :: scanBlocks none rest := by
  rw [scanBlocks, if_neg hopens]
  dsimp only
  rw [if_pos hcloses, hne]
  rfl

theorem scanBlocks_none (hopens : ¬opensBlock line) :
    scanBlocks none (line :: rest) = scanBlocks none rest := by
  rw [scanBlocks, if_neg hopens]

/-- Lines that close no open block leave the scan in some state, with nothing found. -/
theorem scanBlocks_quiet (current : Option (List Char)) (ls : List (List Char))
    (h : ∀ before l after, ls = before ++ l :: after → readsAddress l →
      current = none ∧ ∀ e ∈ before, ¬opensBlock e) :
    ∃ after, ∀ rest, scanBlocks current (ls ++ rest) = scanBlocks after rest := by
  induction ls generalizing current with
  | nil => exact ⟨current, fun _ => rfl⟩
  | cons l ls ih =>
    by_cases hopens : opensBlock l
    · obtain ⟨after, hafter⟩ := ih (some l) (fun before m rest hls hm => by
        have hquiet := (h (l :: before) m rest (by rw [hls]; rfl) hm).2 l List.mem_cons_self
        exact absurd hopens hquiet)
      refine ⟨after, fun rest => ?_⟩
      rw [List.cons_append, scanBlocks_opens _ hopens, hafter]
    · have htail (before : List (List Char)) (m : List Char) (rest : List (List Char))
          (hls : ls = before ++ m :: rest) (hm : readsAddress m) :
          current = none ∧ ∀ e ∈ before, ¬opensBlock e := by
        obtain ⟨hnone, hbefore⟩ := h (l :: before) m rest (by rw [hls]; rfl) hm
        exact ⟨hnone, fun e he => hbefore e (List.mem_cons_of_mem _ he)⟩
      cases current with
      | none =>
        obtain ⟨after, hafter⟩ := ih none htail
        refine ⟨after, fun rest => ?_⟩
        rw [List.cons_append, scanBlocks_none _ hopens, hafter]
      | some text =>
        have hcloses : ¬readsAddress l := by
          intro hreads
          cases (h [] l ls rfl hreads).1
        obtain ⟨after, hafter⟩ := ih (some (text ++ ' ' :: l)) (fun before m rest hls hm => by
          cases (htail before m rest hls hm).1)
        refine ⟨after, fun rest => ?_⟩
        rw [List.cons_append, scanBlocks_plain _ hopens hcloses, hafter]

/-- The lines of a body are joined to the text of their block. -/
theorem scanBlocks_body {ls : List (List Char)}
    (h : ∀ l ∈ ls, ¬opensBlock l ∧ ¬readsAddress l) :
    scanBlocks (some text) (ls ++ rest) =
      scanBlocks (some ([' '].intercalate (text :: ls))) rest := by
  induction ls generalizing text with
  | nil => simp
  | cons l ls ih =>
    obtain ⟨hopens, hcloses⟩ := h l List.mem_cons_self
    rw [List.cons_append, scanBlocks_plain _ hopens hcloses,
      ih (fun m hm => h m (List.mem_cons_of_mem _ hm))]
    congr 2
    cases ls <;> simp [List.intercalate_cons_cons]

end Scan

section Lines

/-- The lines of a text whose lines end where their line feeds stand. -/
theorem lines_append {l : List Char} (h : '\n' ∉ l) (acc rest : List Char) :
    lines acc (l ++ '\n' :: rest) =
      (if (l.reverse ++ acc).head? = some '\r' then (l.reverse ++ acc).tail
        else l.reverse ++ acc).reverse :: lines [] rest := by
  induction l generalizing acc with
  | nil =>
    rw [List.nil_append, lines]
    rfl
  | cons c l ih =>
    have hc : c ≠ '\n' := fun he => h (he ▸ List.mem_cons_self)
    have hl : '\n' ∉ l := fun hm => h (List.mem_cons_of_mem _ hm)
    rw [List.cons_append, lines]
    · rw [ih hl]
      simp
    · exact fun he => hc he

theorem lines_flatMap {ls : List (List Char)} (h : ∀ l ∈ ls, IsLine l) :
    lines [] (ls.flatMap (fun l => l ++ ['\n'])) = ls := by
  induction ls with
  | nil => rfl
  | cons l ls ih =>
    obtain ⟨hfeed, hreturn⟩ := h l List.mem_cons_self
    rw [List.flatMap_cons, List.append_assoc, List.singleton_append, lines_append hfeed,
      ih (fun m hm => h m (List.mem_cons_of_mem _ hm))]
    simp [List.head?_reverse, hreturn]

end Lines

section Addresses

theorem dropWhile_of_head {p : Char → Bool} {cs : List Char} (h : ∀ c ∈ cs.head?, p c = false) :
    cs.dropWhile p = cs := by
  cases cs with
  | nil => rfl
  | cons c cs => rw [List.dropWhile_cons, h c rfl]; rfl

theorem trimMatches_of_ends {p : Char → Bool} {cs : List Char}
    (hhead : ∀ c ∈ cs.head?, p c = false) (hlast : ∀ c ∈ cs.getLast?, p c = false) :
    trimMatches p cs = cs := by
  rw [trimMatches, dropWhile_of_head hhead, dropWhile_of_head (by rwa [List.head?_reverse]),
    List.reverse_reverse]

theorem dropPrefixes_of_not {pre cs : List Char} (h : pre.isPrefixOf cs = false) (fuel : Nat) :
    dropPrefixes pre fuel cs = cs := by
  cases fuel with
  | zero => rfl
  | succ fuel => rw [dropPrefixes, h]; rfl

/-- An address line gives the address back, whatever it has inside. -/
theorem withAddress_line {a : List Char} (hhead : ∀ c ∈ a.head?, isWhitespace c = false)
    (hlast : ∀ c ∈ a.getLast?, isWhitespace c = false ∧ c ≠ ',')
    (hwith : ¬readsAddress (a ++ [','])) :
    withAddress ("with ".toList ++ (a ++ [','])) = a := by
  have hdrop : dropPrefixes "with ".toList ("with ".toList ++ (a ++ [','])).length
      ("with ".toList ++ (a ++ [','])) = a ++ [','] := by
    have hfuel : ("with ".toList ++ (a ++ [','])).length = (a.length + 5) + 1 := by simp
    have hfront : "with ".toList.isPrefixOf ("with ".toList ++ (a ++ [','])) = true :=
      List.isPrefixOf_iff_prefix.mpr (List.prefix_append _ _)
    rw [hfuel, dropPrefixes, hfront, if_pos rfl, List.drop_left,
      dropPrefixes_of_not (Bool.eq_false_iff.mpr hwith)]
  have hcomma : (a ++ [',']).reverse.dropWhile (fun c => decide (c = ',')) = a.reverse := by
    rw [List.reverse_append, List.reverse_singleton, List.singleton_append, List.dropWhile_cons,
      if_pos (by rfl), dropWhile_of_head]
    intro c hc
    rw [List.head?_reverse] at hc
    simpa using (hlast c hc).2
  rw [withAddress, hdrop, hcomma, List.reverse_reverse,
    trimMatches_of_ends hhead (fun c hc => (hlast c hc).1)]

/-- A character that names are made of here. -/
def PlainChar (c : Char) : Prop := isWhitespace c = false ∧ c ≠ ','

/-- An address starts with a name, and ends in a character that is neither blank nor a comma. -/
structure NamedText (text : List Char) : Prop where
  starts : ∃ name rest, text = name ++ rest ∧ name ≠ [] ∧
    (∀ c ∈ name, PlainChar c ∧ nameChar c = true) ∧ ∀ c ∈ rest.head?, nameChar c = false
  ends : ∃ c ∈ text.getLast?, PlainChar c

theorem indexText_last {index : List Char} {key : Option String} (h : IndexText index key) :
    index = [] ∨ index.getLast? = some ']' := by
  cases h with
  | none => exact .inl rfl
  | @quoted text _ _ =>
    right
    simpa using List.getLast?_concat (l := '[' :: '"' :: (text ++ ['"'])) (a := ']')
  | @bare text _ _ => exact .inr (List.getLast?_concat (l := '[' :: text))

theorem indexText_head {index : List Char} {key : Option String} (h : IndexText index key) :
    ∀ c ∈ index.head?, c = '[' := by
  cases h <;> simp

theorem namedText_of_stepText {text : List Char} {s : Step} (h : StepText text s)
    (hplain : ∀ c ∈ s.name.toList, PlainChar c) : NamedText text := by
  obtain ⟨hname, hindex⟩ := h
  rename_i name index key
  have hchars : ∀ c ∈ name, PlainChar c := by simpa using hplain
  constructor
  · refine ⟨name, index, rfl, hname.1, fun c hc => ⟨hchars c hc, hname.2 c hc⟩, fun c hc => ?_⟩
    rw [indexText_head hindex c hc]
    rfl
  · rcases indexText_last hindex with rfl | hlast
    · have hmem := List.getLast_mem hname.1
      exact ⟨_, by simpa using List.getLast?_eq_some_getLast hname.1, hchars _ hmem⟩
    · refine ⟨']', ?_, by decide, by decide⟩
      rw [List.getLast?_append, hlast]
      rfl

theorem namedText_of_addressText {text : List Char} {steps : List Step}
    (h : AddressText text steps) (hplain : ∀ s ∈ steps, ∀ c ∈ s.name.toList, PlainChar c) :
    NamedText text := by
  induction h with
  | last hstep => exact namedText_of_stepText hstep (hplain _ List.mem_cons_self)
  | @cons text rest s steps hstep _ ih =>
    have hhead := namedText_of_stepText hstep (hplain _ List.mem_cons_self)
    have htail := ih (fun s hs => hplain s (List.mem_cons_of_mem _ hs))
    constructor
    · obtain ⟨name, index, rfl, hne, hchars, hindex⟩ := hhead.starts
      refine ⟨name, index ++ '.' :: rest, by simp, hne, hchars, fun c hc => ?_⟩
      cases index with
      | nil =>
        obtain rfl : '.' = c := by simpa using hc
        rfl
      | cons d index => exact hindex c (by simpa using hc)
    · obtain ⟨c, hc, hplain⟩ := htail.ends
      refine ⟨c, ?_, hplain⟩
      rw [List.getLast?_append, List.getLast?_cons, Option.mem_def.mp hc]
      rfl

/-- No address reads as an address line: its name would hold the blank. -/
theorem NamedText.not_readsAddress {text : List Char} (h : NamedText text) :
    ¬readsAddress (text ++ [',']) := by
  obtain ⟨name, rest, rfl, -, hchars, hrest⟩ := h.starts
  intro hreads
  obtain ⟨r, hr⟩ := List.isPrefixOf_iff_prefix.mp hreads
  -- both sides start with a run of characters of names, and what follows it differs
  let ofName (c : Char) : Bool := !isWhitespace c && c ≠ ',' && nameChar c
  have hname : ∀ c ∈ name, ofName c = true := by
    intro c hc
    obtain ⟨⟨hblank, hcomma⟩, hdot⟩ := hchars c hc
    simp [ofName, hblank, hcomma, hdot]
  have hafter : ∀ c ∈ (rest ++ [',']).head?, ofName c = false := by
    intro c hc
    cases rest with
    | nil =>
      obtain rfl : ',' = c := by simpa using hc
      rfl
    | cons d rest => simp [ofName, hrest c (by simpa using hc)]
  have hwith : ("with ".toList ++ r).dropWhile ofName = ' ' :: r := rfl
  rw [hr, List.append_assoc, dropWhile_run hname hafter] at hwith
  cases rest with
  | nil => cases hwith
  | cons d rest =>
    obtain rfl : d = ' ' := by simpa using congrArg List.head? hwith
    cases hrest ' ' rfl

namespace ResourceAddress

variable (a : ResourceAddress)

theorem named : NamedText a.text := namedText_of_addressText a.grammar a.names

/-- The line of an address, without its frame and indent. -/
def line : List Char := "with ".toList ++ (a.text ++ [','])

theorem readsAddress_line : readsAddress a.line :=
  List.isPrefixOf_iff_prefix.mpr (List.prefix_append _ _)

theorem not_opensBlock_line : ¬opensBlock a.line := by
  intro h
  cases h

theorem withAddress_line : withAddress a.line = a.text := by
  obtain ⟨name, rest, htext, hne, hchars, -⟩ := a.named.starts
  obtain ⟨last, hlast, hplain⟩ := a.named.ends
  apply Conflict.withAddress_line
  · intro c hc
    cases name with
    | nil => exact absurd rfl hne
    | cons d name =>
      obtain rfl : d = c := by simpa [htext] using hc
      exact (hchars d List.mem_cons_self).1.1
  · intro c hc
    rw [Option.mem_def.mp hlast] at hc
    cases hc
    exact hplain
  · exact a.named.not_readsAddress

theorem text_ne_nil : a.text ≠ [] := by
  obtain ⟨name, rest, htext, hne, -⟩ := a.named.starts
  simp [htext, hne]

end ResourceAddress

end Addresses

namespace Diagnostic

variable {d : Diagnostic}

/-- The line of the address under the frame. -/
theorem shown_address (d : Diagnostic) (a : List Char) :
    d.shown ("  with ".toList ++ a ++ [',']) = "with ".toList ++ (a ++ [',']) := by
  have hbare : stripDiagFrame ("  with ".toList ++ a ++ [',']) =
      "with ".toList ++ (a ++ [',']) := by
    rw [List.append_assoc]
    rfl
  have hframed : stripDiagFrame ('│' :: ' ' :: ("  with ".toList ++ a ++ [','])) =
      "with ".toList ++ (a ++ [',']) := by
    rw [List.append_assoc]
    rfl
  unfold shown printLine
  split
  · exact hframed
  · exact hbare

theorem shown_summaryLine (d : Diagnostic) : d.shown d.summaryLine = d.summaryLine := by
  unfold shown printLine
  split <;> rfl

theorem isLine_printLine {l : List Char} (h : IsLine l) : IsLine (d.printLine l) := by
  unfold printLine
  split
  · refine ⟨by simpa using h.1, ?_⟩
    cases l with
    | nil => decide
    | cons c l => simpa [IsLine] using h.2
  · exact h

theorem isLine_printed (h : d.WellFormed) : ∀ l ∈ d.printed, IsLine l := by
  intro l hl
  simp only [printed, List.mem_cons, List.mem_append] at hl
  have hpart := h.lines
  rcases hl with rfl | (hl | hl) | hl
  · obtain ⟨hfeed, hreturn⟩ := hpart d.summary List.mem_cons_self
    refine ⟨by simpa [summaryLine] using hfeed, ?_⟩
    rw [summaryLine, List.getLast?_append]
    cases hlast : d.summary.getLast? with
    | none => decide
    | some c => simpa [hlast] using hreturn
  · exact hpart l (by simp [hl])
  · obtain ⟨a, -, rfl⟩ := Option.map_eq_some_iff.mp (Option.mem_toList.mp hl)
    exact ⟨by simpa using a.oneLine, by rw [List.getLast?_concat]; decide⟩
  · exact hpart l (by simp [hl])

theorem isLine_printedLines (h : d.WellFormed) : ∀ l ∈ d.printedLines, IsLine l := by
  have hcap (c : Char) (hc : c = '╷' ∨ c = '╵') : ∀ l ∈ (if d.framed then [[c]] else []),
      IsLine l := by
    intro l hl
    split at hl
    · rw [List.mem_singleton.mp hl]
      rcases hc with rfl | rfl <;> exact ⟨by decide, by decide⟩
    · cases hl
  intro l hl
  simp only [printedLines, List.mem_append, List.mem_map] at hl
  rcases hl with (hl | ⟨m, hm, rfl⟩) | hl
  · exact hcap _ (.inl rfl) l hl
  · exact isLine_printLine (isLine_printed h m hm)
  · exact hcap _ (.inr rfl) l hl

/-- The block of a diagnostic, if a resource is named. -/
def block (d : Diagnostic) : Option (String × String) :=
  d.address.map (fun a => (String.ofList a.text, d.joined))

theorem TrailsQuietly.shown (h : d.TrailsQuietly) {before after : List (List Char)}
    {l : List Char} (htrailing : d.trailing.map d.shown = before ++ l :: after)
    (hl : readsAddress l) : d.address.isSome ∧ ∀ e ∈ before, ¬opensBlock e := by
  obtain ⟨ls, ms, hsplit, rfl, hms⟩ := List.map_eq_append_iff.mp htrailing
  obtain ⟨m, rest, rfl, rfl, -⟩ := List.map_eq_cons_iff.mp hms
  obtain ⟨hsome, hopens⟩ := h ls m rest hsplit hl
  refine ⟨hsome, fun e he => ?_⟩
  obtain ⟨k, hk, rfl⟩ := List.mem_map.mp he
  exact hopens k hk

/-- A cap of the box does nothing that lasts. -/
theorem scanBlocks_cap (c : Char) (hc : c = '╷' ∨ c = '╵') (current : Option (List Char)) :
    ∃ after, ∀ rest, scanBlocks current
      ((if d.framed then [[c]] else []).map stripDiagFrame ++ rest) = scanBlocks after rest := by
  apply scanBlocks_quiet
  intro before l after hls hl
  have hmem : l ∈ (if d.framed then [[c]] else []).map stripDiagFrame := by simp [hls]
  split at hmem
  · have hempty : l = [] := by
      rcases hc with rfl | rfl <;> exact List.mem_singleton.mp hmem
    rw [hempty] at hl
    cases hl
  · cases hmem

/-- A diagnostic is scanned to its block from any state, and leaves the scan in some state. -/
theorem scanBlocks_printedLines (h : d.WellFormed) (hquiet : d.TrailsQuietly)
    (current : Option (List Char)) :
    ∃ after, ∀ rest, scanBlocks current (d.printedLines.map stripDiagFrame ++ rest) =
      d.block.toList ++ scanBlocks after rest := by
  obtain ⟨opened, hopened⟩ := scanBlocks_cap (d := d) '╷' (.inl rfl) current
  have hopens : opensBlock d.summaryLine := List.isPrefixOf_iff_prefix.mpr (List.prefix_append _ _)
  have hbody : ∀ l ∈ d.body.map d.shown, ¬opensBlock l ∧ ¬readsAddress l := by
    intro l hl
    obtain ⟨m, hm, rfl⟩ := List.mem_map.mp hl
    exact h.body m hm
  have hlines : d.printed.map (fun l => stripDiagFrame (d.printLine l)) =
      d.summaryLine :: (d.body.map d.shown ++ (d.addressLines.map d.shown ++
        d.trailing.map d.shown)) := by
    rw [printed, List.map_cons, List.map_append, List.map_append, List.append_assoc]
    exact congrArg (· :: _) d.shown_summaryLine
  have hsplit (rest : List (List Char)) :
      scanBlocks current (d.printedLines.map stripDiagFrame ++ rest) =
      scanBlocks (some ([' '].intercalate (d.summaryLine :: d.body.map d.shown)))
        (d.addressLines.map d.shown ++ (d.trailing.map d.shown ++
          ((if d.framed then [['╵']] else []).map stripDiagFrame ++ rest))) := by
    rw [printedLines, List.map_append, List.map_append, List.map_map, List.append_assoc,
      List.append_assoc, hopened, Function.comp_def, hlines, List.cons_append,
      scanBlocks_opens _ hopens, List.append_assoc, scanBlocks_body _ hbody, List.append_assoc]
  cases haddress : d.address with
  | none =>
    obtain ⟨trailed, htrailed⟩ := scanBlocks_quiet
      (some ([' '].intercalate (d.summaryLine :: d.body.map d.shown)))
      (d.trailing.map d.shown) (fun before l after hls hl => by
        have hsome := (hquiet.shown hls hl).1
        rw [haddress] at hsome
        cases hsome)
    obtain ⟨closed, hclosed⟩ := scanBlocks_cap (d := d) '╵' (.inr rfl) trailed
    refine ⟨closed, fun rest => ?_⟩
    rw [hsplit, addressLines, haddress, block, haddress]
    simp only [Option.map_none, Option.toList_none, List.map_nil, List.nil_append]
    rw [htrailed, hclosed]
  | some a =>
    obtain ⟨trailed, htrailed⟩ := scanBlocks_quiet none (d.trailing.map d.shown)
      (fun before l after hls hl => ⟨rfl, (hquiet.shown hls hl).2⟩)
    obtain ⟨closed, hclosed⟩ := scanBlocks_cap (d := d) '╵' (.inr rfl) trailed
    have hne : (withAddress a.line).isEmpty = false := by
      rw [a.withAddress_line]
      simpa using a.text_ne_nil
    refine ⟨closed, fun rest => ?_⟩
    rw [hsplit, addressLines, haddress, block, haddress]
    simp only [Option.map_some, Option.toList_some, List.map_cons, List.map_nil,
      List.singleton_append]
    rw [shown_address, ← ResourceAddress.line,
      scanBlocks_address _ a.not_opensBlock_line a.readsAddress_line hne, a.withAddress_line,
      htrailed, hclosed]
    rfl

end Diagnostic

/-- Every text of diagnostics is read back: the scan finds the blocks of those that name a
resource, in order, and classes each by its own text. -/
theorem blocks_of_output {ds : List Diagnostic}
    (h : ∀ d ∈ ds, d.WellFormed ∧ d.TrailsQuietly) :
    applyErrorBlocks (output ds) = ds.filterMap Diagnostic.block ∧
      scanConflicts none ((lines [] (output ds).toList).map stripDiagFrame) =
        ds.filterMap (fun d => d.address.map (fun a =>
          (String.ofList a.text, classifyKind d.joined))) := by
  have hlines : lines [] (output ds).toList = ds.flatMap Diagnostic.printedLines := by
    rw [output, String.toList_ofList]
    apply lines_flatMap
    intro l hl
    obtain ⟨d, hd, hl⟩ := List.mem_flatMap.mp hl
    exact Diagnostic.isLine_printedLines (h d hd).1 l hl
  have hblocks (current : Option (List Char)) :
      scanBlocks current ((ds.flatMap Diagnostic.printedLines).map stripDiagFrame) =
        ds.filterMap Diagnostic.block := by
    clear hlines
    induction ds generalizing current with
    | nil => cases current <;> rfl
    | cons d ds ih =>
      obtain ⟨hwf, hquiet⟩ := h d List.mem_cons_self
      obtain ⟨after, hafter⟩ := Diagnostic.scanBlocks_printedLines hwf hquiet current
      rw [List.flatMap_cons, List.map_append, hafter,
        ih (fun e he => h e (List.mem_cons_of_mem _ he))]
      cases hblock : d.block <;> simp [hblock]
  constructor
  · rw [applyErrorBlocks, hlines, hblocks]
  · rw [scanConflicts_eq, hlines, hblocks, List.map_filterMap]
    congr 1
    funext d
    cases haddress : d.address <;> simp [Diagnostic.block, haddress]

/-- A record whose index key ends in a comma. -/
def commaKey : ResourceAddress where
  text := "dns_record.rr[\"a,\"]".toList
  steps := [⟨"dns_record", none⟩, ⟨"rr", some "a,"⟩]
  grammar := by
    have hrecord : IsName "dns_record".toList := by decide
    have hname : IsName "rr".toList := by decide
    have hkey : Quoted "a,".toList "a,".toList :=
      .plain (by decide) (by decide) (.plain (by decide) (by decide) .nil)
    exact .cons (.intro hrecord .none) (.last (.intro hname (.quoted hkey)))
  names := by simp [isWhitespace]
  oneLine := by decide +kernel

/-- It is read back out of its box. -/
def boxedComma : Diagnostic :=
  ⟨true, " 409 conflict".toList, ["".toList, "  record already exists".toList], some commaKey,
    ["on main.tf.json line 0:".toList]⟩

theorem boxedComma_read_back :
    applyErrorBlocks (output [boxedComma]) =
      [("dns_record.rr[\"a,\"]", "Error: 409 conflict  record already exists")] := by
  refine (blocks_of_output (fun d hd => ?_)).1.trans (by decide +kernel)
  rw [List.mem_singleton.mp hd]
  refine ⟨⟨?_, ?_⟩, ?_⟩
  · unfold IsLine
    decide +kernel
  · decide +kernel
  · intro before l after htrailing hl
    have hmem : l ∈ boxedComma.trailing := htrailing ▸ List.mem_append_right _ List.mem_cons_self
    rw [List.mem_singleton.mp hmem] at hl
    exact absurd hl (by decide +kernel)

/-- A diagnostic that names no resource, with a line that reads like the line of one. -/
def withCare : Diagnostic :=
  ⟨false, " no backend".toList, [], none, ["with care".toList]⟩

/-- It is taken for a diagnostic of a resource. -/
theorem withCare_read_as_resource :
    withCare.WellFormed ∧ applyErrorBlocks (output [withCare]) = [("care", "Error: no backend")] ∧
      [withCare].filterMap Diagnostic.block = [] := by
  refine ⟨⟨?_, ?_⟩, by decide +kernel, rfl⟩
  · unfold IsLine
    decide +kernel
  · decide +kernel

end PangeaOperator.Conflict
