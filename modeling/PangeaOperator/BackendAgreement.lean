import PangeaOperator.Lib.Run
import PangeaOperator.StateBackend

/-!
# The state backends agree

What the three backends are to implement is a list of live entries for each template, the
most recently saved first. Each backend holds such a list in its own way: OpenTofu's tables
in the order of insertion, those of the store in any order with the times of the saves, the
map in memory by its keys.
-/

namespace PangeaOperator

/-- The value of a live entry, with the times it was inserted and last saved. -/
structure Held where
  data : ByteArray
  inserted : Nat
  saved : Nat
  deriving DecidableEq

/-- The live entries of one template, the most recently saved first. -/
abbrev Live := List (String × Held)

def heldSeen (e : String × Held) : String × Option ByteArray := (e.1, some e.2.data)

namespace Live

def insertedAt (l : Live) (stateName : String) (now : Nat) : Nat :=
  ((assocGet l stateName).map (fun e => e.2.inserted)).getD now

def save (l : Live) (stateName : String) (data : ByteArray) (now : Nat) : Live :=
  (stateName, ⟨data, l.insertedAt stateName now, now⟩) :: assocErase l stateName

def next (l : Live) (now : Nat) : StateOp → Live
  | .saveState stateName data => l.save stateName data now
  | .deleteState stateName => assocErase l stateName
  | _ => l

def answer {σ : Type} (parse : ByteArray → Option σ) (l : Live) : StateOp → SeenAnswer σ
  | .getState stateName => .entry ((assocGet l stateName).map heldSeen)
  | .getParsedState stateName => .parsed ((assocGet l stateName).bind (fun e => parse e.2.data))
  | .saveState _ _ => .saved
  | .deleteState stateName => .deleted (stateName ∈ l.map Prod.fst)
  | .listStates => .listed (l.map heldSeen)

/-- One entry for a name, in the order of the saves, all of them before the clock. -/
structure Sound (l : Live) (clock : Nat) : Prop where
  names : (l.map Prod.fst).Nodup
  recent : l.Pairwise (fun a b => b.2.saved < a.2.saved)
  past : ∀ e ∈ l, e.2.saved < clock ∧ e.2.inserted < clock

theorem sound_mono {l : Live} {clock clock' : Nat} (h : l.Sound clock) (hle : clock ≤ clock') :
    l.Sound clock' :=
  ⟨h.names, h.recent, fun e he =>
    ⟨(h.past e he).1.trans_le hle, (h.past e he).2.trans_le hle⟩⟩

theorem sound_erase {l : Live} {clock : Nat} (h : l.Sound clock) (stateName : String) :
    Sound (assocErase l stateName) clock :=
  ⟨assocErase_nodup h.names stateName, h.recent.sublist List.filter_sublist,
    fun e he => h.past e (List.mem_filter.mp he).1⟩

theorem insertedAt_le {l : Live} {clock now : Nat} (h : l.Sound clock) (hnow : clock ≤ now)
    (stateName : String) : l.insertedAt stateName now ≤ now := by
  unfold insertedAt
  cases hget : assocGet l stateName with
  | none => exact Nat.le_refl now
  | some e =>
    have hpast := (h.past e ((assocGet_eq_some_iff h.names).mp hget).1).2
    exact (Nat.le_of_lt hpast).trans hnow

theorem sound_save {l : Live} {clock now : Nat} (h : l.Sound clock) (hnow : clock ≤ now)
    (stateName : String) (data : ByteArray) : (l.save stateName data now).Sound (now + 1) := by
  have herase := sound_erase h stateName
  refine ⟨?_, ?_, ?_⟩
  · exact List.nodup_cons.mpr ⟨not_mem_assocErase l stateName, herase.names⟩
  · refine List.pairwise_cons.mpr ⟨fun e he => ?_, herase.recent⟩
    exact (herase.past e he).1.trans_le hnow
  · intro e he
    rcases List.mem_cons.mp he with rfl | he
    · exact ⟨Nat.lt_succ_self now, Nat.lt_succ_of_le (insertedAt_le h hnow stateName)⟩
    · exact (sound_mono herase (Nat.le_succ_of_le hnow)).past e he

end Live

section Tofu

/-- OpenTofu's table holds the entries in the order of their insertion. -/
def HoldsInOrder (c : TofuContent) (l : Live) : Prop :=
  ∃ rows : Live, rows.Perm l ∧ rows.Pairwise (fun a b => a.2.inserted < b.2.inserted) ∧
    c.map tofuSeen = rows.map heldSeen

variable {c : TofuContent} {l : Live} {clock : Nat}

theorem assocGet_inOrder (hl : l.Sound clock) (h : HoldsInOrder c l) (stateName : String) :
    (assocGet c stateName).map tofuSeen = (assocGet l stateName).map heldSeen := by
  obtain ⟨rows, hperm, -, hc⟩ := h
  have hnames : (rows.map Prod.fst).Nodup := (hperm.map Prod.fst).nodup_iff.mpr hl.names
  have hleft := map_assocGet (Option.map String.toUTF8) c stateName
  have hright := map_assocGet (fun h : Held => some h.data) rows stateName
  rw [show c.map (Prod.map id (Option.map String.toUTF8)) = c.map tofuSeen from rfl, hc] at hleft
  rw [assocGet_perm hnames hperm] at hright
  exact hleft.trans hright.symm

theorem names_inOrder (h : HoldsInOrder c l) (stateName : String) :
    stateName ∈ c.map Prod.fst ↔ stateName ∈ l.map Prod.fst := by
  obtain ⟨rows, hperm, -, hc⟩ := h
  have hnames := congrArg (List.map Prod.fst) hc
  rw [List.map_map, List.map_map] at hnames
  have hkeys : c.map Prod.fst = rows.map Prod.fst := hnames
  rw [hkeys]
  exact (hperm.map Prod.fst).mem_iff

theorem inOrder_erase (h : HoldsInOrder c l) (stateName : String) :
    HoldsInOrder (assocErase c stateName) (assocErase l stateName) := by
  obtain ⟨rows, hperm, hsorted, hc⟩ := h
  refine ⟨assocErase rows stateName, assocErase_perm hperm stateName,
    hsorted.sublist List.filter_sublist, ?_⟩
  have hleft := map_assocErase (Option.map String.toUTF8) c stateName
  have hright := map_assocErase (fun h : Held => some h.data) rows stateName
  rw [show c.map (Prod.map id (Option.map String.toUTF8)) = c.map tofuSeen from rfl, hc] at hleft
  exact hleft.trans hright.symm

/-- A save in place keeps the time of the insertion, and a new row comes last. -/
theorem inOrder_save (hl : l.Sound clock) {now : Nat} (hnow : clock ≤ now) (h : HoldsInOrder c l)
    (stateName : String) {data : ByteArray} {text : String} (htext : text.toUTF8 = data) :
    HoldsInOrder (assocPut c stateName (some text)) (l.save stateName data now) := by
  obtain ⟨rows, hperm, hsorted, hc⟩ := h
  have hnames : (rows.map Prod.fst).Nodup := (hperm.map Prod.fst).nodup_iff.mpr hl.names
  have hget := assocGet_perm hnames hperm stateName
  refine ⟨assocPut rows stateName ⟨data, l.insertedAt stateName now, now⟩, ?_, ?_, ?_⟩
  · exact (assocPut_perm hnames stateName _).trans ((assocErase_perm hperm stateName).cons _)
  · unfold assocPut
    split
    · next hmem =>
      rw [List.pairwise_map]
      have hsame : ∀ e ∈ rows, (if e.1 = stateName then
          (stateName, (⟨data, l.insertedAt stateName now, now⟩ : Held)) else e).2.inserted =
            e.2.inserted := by
        intro e he
        split
        · next hk =>
          have hfound : assocGet l stateName = some e := by
            rw [← hget]
            exact (assocGet_eq_some_iff hnames).mpr ⟨he, hk⟩
          simp [Live.insertedAt, hfound]
        · rfl
      refine hsorted.imp_of_mem (fun ha hb hlt => ?_)
      rw [hsame _ ha, hsame _ hb]
      exact hlt
    · next hmem =>
      have hnone : assocGet l stateName = none := by
        rw [← hget]
        cases hr : assocGet rows stateName with
        | none => rfl
        | some e => exact absurd ((assocGet_isSome_iff rows stateName).mp (by rw [hr]; rfl)) hmem
      refine List.pairwise_append.mpr ⟨hsorted, List.pairwise_singleton _ _, fun a ha b hb => ?_⟩
      rw [List.mem_singleton.mp hb]
      have hpast := (hl.past a (hperm.subset ha)).2
      simp only [Live.insertedAt, hnone, Option.map_none, Option.getD_none]
      omega
  · have hleft := map_assocPut (Option.map String.toUTF8) c stateName (some text)
    have hright := map_assocPut (fun h : Held => some h.data) rows stateName
      ⟨data, l.insertedAt stateName now, now⟩
    rw [show c.map (Prod.map id (Option.map String.toUTF8)) = c.map tofuSeen from rfl, hc,
      Option.map_some, htext] at hleft
    exact hleft.trans hright.symm

/-- The rows come back in the order of the saves where that is the order of the insertions. -/
theorem inOrder_listed (h : HoldsInOrder c l)
    (hage : l.Pairwise (fun a b => b.2.inserted < a.2.inserted)) :
    c.reverse.map tofuSeen = l.map heldSeen := by
  obtain ⟨rows, hperm, hsorted, hc⟩ := h
  have hdesc : rows.reverse.Pairwise (fun a b => b.2.inserted < a.2.inserted) :=
    List.pairwise_reverse.mpr hsorted
  have hrows : rows.reverse = l := by
    rw [← orderByDesc_eq (f := fun e : String × Held => e.2.inserted) (List.Perm.refl _) hdesc]
    exact orderByDesc_eq ((List.reverse_perm rows).trans hperm) hage
  rw [List.map_reverse, hc, ← List.map_reverse, hrows]

end Tofu

section Store

def Held.stored (h : Held) : StoreValue := ⟨some h.data, h.saved⟩

def storedSeen (e : String × StoreValue) : String × Option ByteArray := (e.1, e.2.data)

/-- The store's table and the map in memory hold the entries with the times of their saves, in
any order. -/
def HoldsInTime (c : List (String × StoreValue)) (l : Live) : Prop :=
  c.Perm (l.map (Prod.map id Held.stored))

variable {c : List (String × StoreValue)} {l : Live} {clock : Nat}

theorem stored_fst (l : Live) :
    (l.map (Prod.map id Held.stored)).map Prod.fst = l.map Prod.fst := by
  rw [List.map_map]
  rfl

theorem inTime_names (hl : l.Sound clock) (h : HoldsInTime c l) : (c.map Prod.fst).Nodup := by
  rw [(h.map Prod.fst).nodup_iff, stored_fst]
  exact hl.names

theorem assocGet_inTime (hl : l.Sound clock) (h : HoldsInTime c l) (stateName : String) :
    (assocGet c stateName).map storedSeen = (assocGet l stateName).map heldSeen := by
  rw [assocGet_perm (inTime_names hl h) h, ← map_assocGet, Option.map_map]
  rfl

theorem names_inTime (h : HoldsInTime c l) (stateName : String) :
    stateName ∈ c.map Prod.fst ↔ stateName ∈ l.map Prod.fst := by
  rw [(h.map Prod.fst).mem_iff, stored_fst]

theorem inTime_erase (h : HoldsInTime c l) (stateName : String) :
    HoldsInTime (assocErase c stateName) (assocErase l stateName) := by
  rw [HoldsInTime, map_assocErase]
  exact assocErase_perm h stateName

theorem inTime_save (h : HoldsInTime c l) (stateName : String) (data : ByteArray) (now : Nat) :
    HoldsInTime ((stateName, ⟨some data, now⟩) :: assocErase c stateName)
      (l.save stateName data now) :=
  (inTime_erase h stateName).cons _

theorem inTime_listed (hl : l.Sound clock) (h : HoldsInTime c l) :
    (orderByDesc (fun e => e.2.createdAt) c).map storedSeen = l.map heldSeen := by
  have hsorted : (l.map (Prod.map id Held.stored)).Pairwise
      (fun a b => b.2.createdAt < a.2.createdAt) := List.pairwise_map.mpr hl.recent
  rw [orderByDesc_eq h hsorted, List.map_map]
  rfl

/-- Sorting by a column of what is shown is sorting by the column of the rows. -/
theorem map_orderByDesc {α β : Type} (g : α → β) (f : β → Nat) (rows : List α) :
    (orderByDesc (fun a => f (g a)) rows).map g = orderByDesc f (rows.map g) :=
  List.map_insertionSort _ _ g rows (fun _ _ _ _ => Iff.rfl)

end Store

section Memory

def ofPair (pair : String × String) (x : (String × String × String) × StateEntry) : Bool :=
  x.1.1 = pair.1 && x.1.2.1 = pair.2

def memoryValue (x : (String × String × String) × StateEntry) : String × StoreValue :=
  (x.1.2.2, ⟨x.2.data, x.2.createdAt⟩)

/-- The entries of one template in memory, by their names. -/
def memoryView (m : MemoryState) (pair : String × String) : List (String × StoreValue) :=
  (m.entries.filter (ofPair pair)).map memoryValue

/-- An entry has the name it is kept under. -/
def Named (m : MemoryState) : Prop := ∀ x ∈ m.entries, x.2.name = x.1.2.2

variable {m : MemoryState}

theorem ofPair_and (pair : String × String) (stateName : String)
    (x : (String × String × String) × StateEntry) :
    (ofPair pair x = true ∧ x.1.2.2 = stateName) ↔ x.1 = (pair.1, pair.2, stateName) := by
  obtain ⟨⟨s, t, n⟩, e⟩ := x
  simp [ofPair, and_assoc]

theorem get_memory (hm : Named m) (pair : String × String) (stateName : String) :
    (InMemoryStateBackend.get m (pair.1, pair.2, stateName)).map StateEntry.seen =
      (assocGet (memoryView m pair) stateName).map storedSeen := by
  have hfind : assocGet (memoryView m pair) stateName =
      (m.entries.find? (·.1 = (pair.1, pair.2, stateName))).map memoryValue := by
    simp only [assocGet, memoryView, List.find?_map, List.find?_filter, Function.comp_def]
    congr 2
    funext x
    apply decide_eq_decide.mpr
    rw [decide_eq_true_eq]
    exact ofPair_and pair stateName x
  rw [hfind, InMemoryStateBackend.get]
  cases hx : m.entries.find? (·.1 = (pair.1, pair.2, stateName)) with
  | none => rfl
  | some x =>
    have hname := hm x (List.mem_of_find?_eq_some hx)
    simp [StateEntry.seen, storedSeen, memoryValue, hname]

theorem listed_memory (hm : Named m) (pair : String × String) :
    (orderByDesc StateEntry.createdAt (InMemoryStateBackend.ofTemplate m pair)).map
        StateEntry.seen =
      (orderByDesc (fun e => e.2.createdAt) (memoryView m pair)).map storedSeen := by
  have hleft := map_orderByDesc Prod.snd StateEntry.createdAt (m.entries.filter (ofPair pair))
  have hright := map_orderByDesc memoryValue (fun e => e.2.createdAt)
    (m.entries.filter (ofPair pair))
  have htemplate : InMemoryStateBackend.ofTemplate m pair =
      (m.entries.filter (ofPair pair)).map Prod.snd := rfl
  rw [htemplate, ← hleft, memoryView, ← hright, List.map_map, List.map_map]
  apply List.map_congr_left
  intro x hx
  have hmem := (List.perm_insertionSort _ _).subset hx
  have hname := hm x (List.mem_filter.mp hmem).1
  simp [StateEntry.seen, storedSeen, memoryValue, hname]

/-- Dropping a key from the map drops the name from the view of its template, and nothing else. -/
theorem view_filter (entries : List ((String × String × String) × StateEntry))
    (pair pair' : String × String) (stateName : String) :
    ((entries.filter (·.1 ≠ (pair.1, pair.2, stateName))).filter (ofPair pair')).map memoryValue =
      if pair' = pair then assocErase ((entries.filter (ofPair pair')).map memoryValue) stateName
      else (entries.filter (ofPair pair')).map memoryValue := by
  rw [List.filter_filter]
  split
  · next hp =>
    subst hp
    rw [assocErase, List.filter_map, List.filter_filter]
    congr 1
    apply List.filter_congr
    intro x _
    have hiff := ofPair_and pair' stateName x
    by_cases hpair : ofPair pair' x = true
    · simp only [hpair, true_and] at hiff
      simp [hpair, memoryValue, hiff]
    · simp [hpair]
  · next hp =>
    congr 1
    apply List.filter_congr
    intro x _
    by_cases hpair : ofPair pair' x = true
    · have hne : x.1 ≠ (pair.1, pair.2, stateName) := by
        intro hx
        rw [ofPair, hx, Bool.and_eq_true, decide_eq_true_eq, decide_eq_true_eq] at hpair
        exact hp (Prod.ext hpair.1.symm hpair.2.symm)
      simp [hpair, hne]
    · simp [hpair]

theorem view_insert (m : MemoryState) (pair pair' : String × String) (stateName : String)
    (e : StateEntry) :
    (memoryView (InMemoryStateBackend.insert m (pair.1, pair.2, stateName) e) pair').Perm
      (if pair' = pair then
        (stateName, ⟨e.data, e.createdAt⟩) :: assocErase (memoryView m pair') stateName
      else memoryView m pair') := by
  have hperm : (InMemoryStateBackend.insert m (pair.1, pair.2, stateName) e).entries.Perm
      (((pair.1, pair.2, stateName), e) ::
        m.entries.filter (·.1 ≠ (pair.1, pair.2, stateName))) :=
    List.perm_orderedInsert _ _ _
  refine ((hperm.filter (ofPair pair')).map memoryValue).trans ?_
  have hview := view_filter m.entries pair pair' stateName
  by_cases hp : pair' = pair
  · subst hp
    rw [List.filter_cons_of_pos (by simp [ofPair]), List.map_cons, hview, if_pos rfl, if_pos rfl]
    exact List.Perm.refl _
  · have hout : ¬ofPair pair' ((pair.1, pair.2, stateName), e) = true := by
      intro h
      rw [ofPair, Bool.and_eq_true, decide_eq_true_eq, decide_eq_true_eq] at h
      exact hp (Prod.ext h.1.symm h.2.symm)
    rw [List.filter_cons_of_neg hout, hview, if_neg hp, if_neg hp]
    exact List.Perm.refl _

end Memory

section Exec

variable {σ : Type} {digest : String → String} {parse : ByteArray → Option σ} {l : Live}
  {clock : Nat}

def StateOp.stateName : StateOp → Option String
  | .getState n | .getParsedState n | .saveState n _ | .deleteState n => some n
  | .listStates => none

/-- A state name that PostgreSQL takes. -/
def ValidName (n : String) : Prop := Char.ofNat 0 ∉ n.toList ∧ n.toList.length ≤ 255

/-- The calls of the property: names that are valid, data that is UTF-8, saves later than the ones
before. -/
def ValidOp (op : StateOp) (clock now : Nat) : Prop :=
  (∀ n, op.stateName = some n → ValidName n) ∧
  ∀ n data, op = .saveState n data → (String.fromUTF8? data).isSome = true ∧ clock ≤ now

/-- What the tables of PostgreSQL need beyond: a parsed read finds bytes that parse, a text holds
no NUL, and a listing finds the order of the insertions to be that of the saves. -/
def Served (parse : ByteArray → Option σ) (l : Live) : StateOp → Prop
  | .getParsedState n => ∀ e, assocGet l n = some e → (parse e.2.data).isSome = true
  | .saveState _ data => ∀ text, String.fromUTF8? data = some text → Char.ofNat 0 ∉ text.toList
  | .listStates => l.Pairwise (fun a b => b.2.inserted < a.2.inserted)
  | _ => True

theorem bindText_ok {s : String} (h : Char.ofNat 0 ∉ s.toList) : bindText s = .ok () := if_neg h

theorem toUTF8_fromUTF8 {data : ByteArray} {text : String}
    (h : String.fromUTF8? data = some text) : text.toUTF8 = data := by
  unfold String.fromUTF8? at h
  split at h
  · cases h
    rfl
  · cases h

/-- What a parsed read makes of bytes that parse. -/
theorem parsed_of_data {n : String} {o : Option (String × Option ByteArray)}
    (hserved : Served parse l (.getParsedState n))
    (ho : o = (assocGet l n).map heldSeen) :
    (o.bind Prod.snd = none ∧ (assocGet l n).bind (fun e => parse e.2.data) = none) ∨
    ∃ data state, o.bind Prod.snd = some data ∧ parse data = some state ∧
      (assocGet l n).bind (fun e => parse e.2.data) = some state := by
  subst ho
  cases hget : assocGet l n with
  | none => exact .inl ⟨rfl, rfl⟩
  | some e =>
    obtain ⟨state, hstate⟩ := Option.isSome_iff_exists.mp (hserved e hget)
    exact .inr ⟨e.2.data, state, rfl, hstate, hstate⟩

theorem execContent_inOrder {c : TofuContent} (hl : l.Sound clock) (h : HoldsInOrder c l)
    {op : StateOp} {now : Nat} (hvalid : ValidOp op clock now) (hserved : Served parse l op) :
    ∃ c', execContent parse c op = .ok (l.answer parse op, c') ∧
      HoldsInOrder c' (l.next now op) := by
  cases op with
  | getState n =>
    have hname := bindText_ok (hvalid.1 n rfl).1
    refine ⟨c, ?_, h⟩
    simp only [execContent, hname, bind, Except.bind, Live.answer, assocGet_inOrder hl h]
  | getParsedState n =>
    have hname := bindText_ok (hvalid.1 n rfl).1
    refine ⟨c, ?_, h⟩
    simp only [execContent, hname, bind, Except.bind, Live.answer]
    rcases parsed_of_data hserved (assocGet_inOrder hl h n) with
      ⟨hdata, hnone⟩ | ⟨data, state, hdata, hparse, hsome⟩
    · rw [hdata, hnone]
    · simp only [hdata, hparse, hsome]
  | saveState n data =>
    have hname := bindText_ok (hvalid.1 n rfl).1
    obtain ⟨hutf8, hnow⟩ := hvalid.2 n data rfl
    obtain ⟨text, htext⟩ := Option.isSome_iff_exists.mp hutf8
    have hbind := bindText_ok (hserved text htext)
    refine ⟨assocPut c n (some text), ?_, inOrder_save hl hnow h n (toUTF8_fromUTF8 htext)⟩
    simp only [execContent, TofuPgStateBackend.fromUtf8, htext, hname, hbind, bind, Except.bind,
      Live.answer]
  | deleteState n =>
    have hname := bindText_ok (hvalid.1 n rfl).1
    refine ⟨assocErase c n, ?_, inOrder_erase h n⟩
    simp only [execContent, hname, bind, Except.bind, Live.answer, names_inOrder h]
  | listStates =>
    exact ⟨c, by simp only [execContent, Live.answer, inOrder_listed h hserved], h⟩

/-- The result of a backend over tables: the answer, and what the tables hold afterwards. -/
def Shows {ν : Type} (result : Except BackendError (StateAnswer σ × (String → SqlTable String ν)))
    (answer : SeenAnswer σ) (contents : String → List (String × ν)) : Prop :=
  ∃ a tables, result = .ok (a, tables) ∧ a.seen = answer ∧ contentsOf tables = contents

theorem tofu_shows {tables : TofuTables} {call : StateCall} {i : String}
    (hi : tofuStateTableIdent digest call.schemaName call.templateName = .ok i)
    (hl : l.Sound clock) (h : HoldsInOrder (contentsOf tables i) l)
    (hvalid : ValidOp call.op clock call.now) (hserved : Served parse l call.op) :
    ∃ c', Shows (TofuPgStateBackend.exec digest parse tables call) (l.answer parse call.op)
        (putTable (contentsOf tables) i c') ∧ HoldsInOrder c' (l.next call.now call.op) := by
  obtain ⟨c', hexec, hc'⟩ := execContent_inOrder hl h hvalid hserved
  have heq := @tofu_exec_eq σ digest parse tables call
  simp only [hi, hexec, bind, Except.bind] at heq
  refine ⟨c', ?_, hc'⟩
  cases hr : TofuPgStateBackend.exec digest parse tables call with
  | error e =>
    rw [hr] at heq
    cases heq
  | ok r =>
    rw [hr] at heq
    simp only [Except.map, Except.ok.injEq, Prod.mk.injEq] at heq
    exact ⟨r.1, r.2, rfl, heq.1, heq.2⟩

theorem seen_storeEntry (t : SqlTable String StoreValue) (n : String) :
    ((t.find n).map storeEntry).map StateEntry.seen = (assocGet t.content n).map storedSeen := by
  rw [← SqlTable.find_pair]
  cases t.find n <;> rfl

theorem data_storeEntry (t : SqlTable String StoreValue) (n : String) :
    ((t.find n).map storeEntry).bind StateEntry.data =
      ((assocGet t.content n).map storedSeen).bind Prod.snd := by
  rw [← SqlTable.find_pair]
  cases t.find n <;> rfl

theorem postgres_shows {tables : StoreTables} {call : StateCall} {i : String}
    (hi : qualifiedStateTable digest call.schemaName call.templateName = .ok i)
    (hl : l.Sound clock) (h : HoldsInTime (contentsOf tables i) l)
    (hvalid : ValidOp call.op clock call.now) (hserved : Served parse l call.op) :
    ∃ c', Shows (PostgresStateBackend.exec digest parse tables call) (l.answer parse call.op)
        (putTable (contentsOf tables) i c') ∧ HoldsInTime c' (l.next call.now call.op) := by
  have hkept : contentsOf tables = putTable (contentsOf tables) i (contentsOf tables i) :=
    (putTable_self (contentsOf tables) i).symm
  unfold PostgresStateBackend.exec
  simp only [hi, bind, Except.bind]
  cases hop : call.op with
  | getState n =>
    rw [hop] at hvalid
    have hname := bindText_ok (hvalid.1 n rfl).1
    simp only [PostgresStateBackend.getState, hname, bind, Except.bind]
    refine ⟨_, ⟨_, _, rfl, ?_, hkept⟩, h⟩
    simp only [StateAnswer.seen, Live.answer, seen_storeEntry]
    rw [← assocGet_inTime hl h n]
    rfl
  | getParsedState n =>
    rw [hop] at hvalid hserved
    have hname := bindText_ok (hvalid.1 n rfl).1
    simp only [PostgresStateBackend.getState, hname, parseEntry, data_storeEntry, bind,
      Except.bind]
    rcases parsed_of_data hserved (assocGet_inTime hl h n) with
      ⟨hdata, hnone⟩ | ⟨data, state, hdata, hparse, hsome⟩
    · rw [show ((assocGet (tables i).content n).map storedSeen).bind Prod.snd = none from hdata]
      exact ⟨_, ⟨_, _, rfl, by simp only [StateAnswer.seen, Live.answer, hnone], hkept⟩, h⟩
    · rw [show ((assocGet (tables i).content n).map storedSeen).bind Prod.snd = _ from hdata]
      simp only [hparse]
      exact ⟨_, ⟨_, _, rfl, by simp only [StateAnswer.seen, Live.answer, hsome], hkept⟩, h⟩
  | saveState n data =>
    rw [hop] at hvalid
    have hname := bindText_ok (hvalid.1 n rfl).1
    have hfits : fitsName n = .ok () := if_pos (hvalid.1 n rfl).2
    simp only [hname, hfits]
    refine ⟨_, ⟨_, _, rfl, rfl, contentsOf_putTable _ _ _⟩, ?_⟩
    rw [SqlTable.content_upsert]
    exact (assocPut_perm (inTime_names hl h) n _).trans (inTime_save h n data call.now)
  | deleteState n =>
    rw [hop] at hvalid
    have hname := bindText_ok (hvalid.1 n rfl).1
    simp only [hname]
    refine ⟨_, ⟨_, _, rfl, ?_, contentsOf_putTable _ _ _⟩, ?_⟩
    · simp only [StateAnswer.seen, Live.answer, SqlTable.affected_pos_iff]
      exact congrArg SeenAnswer.deleted (decide_eq_decide.mpr (names_inTime h n))
    · rw [SqlTable.content_delete]
      exact inTime_erase h n
  | listStates =>
    refine ⟨_, ⟨_, _, rfl, ?_, hkept⟩, h⟩
    have hcolumn := map_orderByDesc SqlRow.pair (fun e : String × StoreValue => e.2.createdAt)
      (tables i).rows
    simp only [StateAnswer.seen, Live.answer, SeenAnswer.listed.injEq]
    rw [← inTime_listed hl h, show contentsOf tables i = (tables i).rows.map SqlRow.pair from rfl,
      ← hcolumn, List.map_map, List.map_map]
    rfl

/-- The map in memory answers every call. -/
theorem memory_shows {m : MemoryState} {call : StateCall} (hl : l.Sound clock) (hm : Named m)
    (h : HoldsInTime (memoryView m call.pair) l) :
    (InMemoryStateBackend.exec parse m call).1.seen = l.answer parse call.op := by
  have hget (n : String) : (InMemoryStateBackend.get m
      (call.schemaName, call.templateName, n)).map StateEntry.seen =
        (assocGet l n).map heldSeen :=
    (get_memory hm call.pair n).trans (assocGet_inTime hl h n)
  unfold InMemoryStateBackend.exec
  cases call.op with
  | getState n => simp only [StateAnswer.seen, Live.answer, hget n]
  | getParsedState n =>
    simp only [StateAnswer.seen, Live.answer, SeenAnswer.parsed.injEq]
    have hfound := hget n
    cases hg : InMemoryStateBackend.get m (call.schemaName, call.templateName, n) with
    | none =>
      rw [hg] at hfound
      rw [Option.map_eq_none_iff.mp hfound.symm]
      rfl
    | some e =>
      rw [hg] at hfound
      obtain ⟨x, hx, hseen⟩ := Option.map_eq_some_iff.mp hfound.symm
      rw [hx, Option.bind_some, Option.bind_some, ← show some x.2.data = e.data from
        congrArg Prod.snd hseen, Option.bind_some]
  | saveState n data => rfl
  | deleteState n =>
    simp only [StateAnswer.seen, Live.answer, SeenAnswer.deleted.injEq]
    have hsome := congrArg Option.isSome (hget n)
    rw [Option.isSome_map, Option.isSome_map] at hsome
    rw [hsome, Bool.eq_iff_iff, assocGet_isSome_iff, decide_eq_true_eq]
  | listStates =>
    simp only [StateAnswer.seen, Live.answer]
    rw [listed_memory hm, inTime_listed hl h]

theorem named_exec {m : MemoryState} (hm : Named m) (call : StateCall) :
    Named (InMemoryStateBackend.exec parse m call).2 := by
  unfold InMemoryStateBackend.exec
  cases call.op with
  | saveState n data =>
    intro x hx
    rcases List.mem_cons.mp ((List.perm_orderedInsert _ _ _).subset hx) with rfl | hx
    · rfl
    · exact hm x (List.mem_filter.mp hx).1
  | deleteState n => exact fun x hx => hm x (List.mem_filter.mp hx).1
  | getState n => exact hm
  | getParsedState n => exact hm
  | listStates => exact hm

/-- A call changes the view of its own template as the list of its live entries, and no other. -/
theorem view_exec {m : MemoryState} (call : StateCall) (pair : String × String)
    (h : HoldsInTime (memoryView m pair) l) :
    HoldsInTime (memoryView (InMemoryStateBackend.exec parse m call).2 pair)
      (if pair = call.pair then l.next call.now call.op else l) := by
  unfold InMemoryStateBackend.exec
  cases call.op with
  | saveState n data =>
    refine (view_insert m call.pair pair n ⟨m.nextId, n, some data, call.now⟩).trans ?_
    split
    · exact inTime_save h n data call.now
    · exact h
  | deleteState n =>
    have hview := view_filter m.entries call.pair pair n
    refine (List.Perm.of_eq hview).trans ?_
    split
    · exact inTime_erase h n
    · exact h
  | getState n => simpa [Live.next] using h
  | getParsedState n => simpa [Live.next] using h
  | listStates => simpa [Live.next] using h

end Exec

/-- The three backends under the same calls, beside the live entries they are to hold, the time
from which the next save is later than all before, and the templates of the calls so far. -/
structure Backends where
  tofu : TofuTables
  postgres : StoreTables
  memory : MemoryState
  live : String × String → Live
  clock : Nat
  pairs : List (String × String)

section Runs

variable {σ : Type} (digest : String → String) (parse : ByteArray → Option σ)

def tofuIdent (pair : String × String) : Except BackendError String :=
  tofuStateTableIdent digest pair.1 pair.2

def storeIdent (pair : String × String) : Except BackendError String :=
  qualifiedStateTable digest pair.1 pair.2

namespace Backends

def start : Backends :=
  ⟨fun _ => .empty, fun _ => .empty, InMemoryStateBackend.new, fun _ => [], 0, []⟩

def step (st : Backends) (call : StateCall) : Backends where
  tofu := match TofuPgStateBackend.exec digest parse st.tofu call with
    | .ok r => r.2
    | .error _ => st.tofu
  postgres := match PostgresStateBackend.exec digest parse st.postgres call with
    | .ok r => r.2
    | .error _ => st.postgres
  memory := (InMemoryStateBackend.exec parse st.memory call).2
  live pair := if pair = call.pair then (st.live pair).next call.now call.op else st.live pair
  clock := match call.op with
    | .saveState _ _ => call.now + 1
    | _ => st.clock
  pairs := call.pair :: st.pairs

/-- What the property supposes of a call. -/
def Supposed (st : Backends) (call : StateCall) : Prop :=
  (∃ i, tofuIdent digest call.pair = .ok i) ∧ (∃ i, storeIdent digest call.pair = .ok i) ∧
    ValidOp call.op st.clock call.now

/-- Where the tables serve as the store: the template shares its tables with no other, and the
call meets what they can do. -/
def Fits (st : Backends) (call : StateCall) : Prop :=
  (∀ q ∈ st.pairs, tofuIdent digest q = tofuIdent digest call.pair → q = call.pair) ∧
  (∀ q ∈ st.pairs, storeIdent digest q = storeIdent digest call.pair → q = call.pair) ∧
  Served parse (st.live call.pair) call.op

/-- All three answer as the live entries do. -/
def Agree (st : Backends) (call : StateCall) : Prop :=
  (TofuPgStateBackend.exec digest parse st.tofu call).map (fun r => r.1.seen) =
    .ok ((st.live call.pair).answer parse call.op) ∧
  (PostgresStateBackend.exec digest parse st.postgres call).map (fun r => r.1.seen) =
    .ok ((st.live call.pair).answer parse call.op) ∧
  (InMemoryStateBackend.exec parse st.memory call).1.seen =
    (st.live call.pair).answer parse call.op

end Backends

variable {digest parse}

/-- A template that shares its table with no other is held there. -/
def Represents {γ : Type} (view : String → γ) (ident : String × String → Except BackendError String)
    (holds : γ → Live → Prop) (pairs : List (String × String))
    (live : String × String → Live) : Prop :=
  ∀ p i, ident p = .ok i → (∀ q ∈ pairs, ident q = .ok i → q = p) → holds (view i) (live p)

theorem represents_step {γ : Type} {view : String → γ}
    {ident : String × String → Except BackendError String} {holds : γ → Live → Prop}
    {pairs : List (String × String)} {live : String × String → Live}
    (h : Represents view ident holds pairs live) {p₀ : String × String} {i₀ : String}
    (hi₀ : ident p₀ = .ok i₀) {c' : γ} {l' : Live} (hc' : holds c' l') :
    Represents (putTable view i₀ c') ident holds (p₀ :: pairs)
      (fun p => if p = p₀ then l' else live p) := by
  intro p i hi halone
  by_cases hsame : i = i₀
  · -- the only template of that table is the one of the call
    have hp : p₀ = p := halone p₀ List.mem_cons_self (by rw [hi₀, hsame])
    simp only [putTable, if_pos hsame, hp]
    simpa using hc'
  · have hp : p ≠ p₀ := by
      rintro rfl
      exact hsame (Except.ok.inj (hi.symm.trans hi₀))
    simp only [putTable, if_neg hsame, if_neg hp]
    exact h p i hi (fun q hq => halone q (List.mem_cons_of_mem _ hq))

namespace Backends

variable (digest) in
structure Inv (st : Backends) : Prop where
  sound : ∀ p, (st.live p).Sound st.clock
  tofu : Represents (contentsOf st.tofu) (tofuIdent digest) HoldsInOrder st.pairs st.live
  postgres : Represents (contentsOf st.postgres) (storeIdent digest) HoldsInTime st.pairs st.live
  named : Named st.memory
  memory : ∀ p, HoldsInTime (memoryView st.memory p) (st.live p)

theorem inv_start : Inv digest start where
  sound _ := ⟨List.nodup_nil, List.Pairwise.nil, nofun⟩
  tofu _ _ _ _ := ⟨[], List.Perm.refl _, List.Pairwise.nil, rfl⟩
  postgres _ _ _ _ := List.Perm.refl _
  named _ hx := absurd hx List.not_mem_nil
  memory _ := List.Perm.refl _

variable {st : Backends} {call : StateCall}

theorem tofu_call (hinv : Inv digest st) (hs : Supposed digest st call)
    (hf : Fits digest parse st call) : ∃ i c', tofuIdent digest call.pair = .ok i ∧
      Shows (TofuPgStateBackend.exec digest parse st.tofu call)
        ((st.live call.pair).answer parse call.op) (putTable (contentsOf st.tofu) i c') ∧
      HoldsInOrder c' ((st.live call.pair).next call.now call.op) := by
  obtain ⟨i, hi⟩ := hs.1
  have hheld := hinv.tofu call.pair i hi (fun q hq hqi => hf.1 q hq (hqi.trans hi.symm))
  obtain ⟨c', hshows, hc'⟩ := tofu_shows hi (hinv.sound call.pair) hheld hs.2.2 hf.2.2
  exact ⟨i, c', hi, hshows, hc'⟩

theorem postgres_call (hinv : Inv digest st) (hs : Supposed digest st call)
    (hf : Fits digest parse st call) : ∃ i c', storeIdent digest call.pair = .ok i ∧
      Shows (PostgresStateBackend.exec digest parse st.postgres call)
        ((st.live call.pair).answer parse call.op) (putTable (contentsOf st.postgres) i c') ∧
      HoldsInTime c' ((st.live call.pair).next call.now call.op) := by
  obtain ⟨i, hi⟩ := hs.2.1
  have hheld := hinv.postgres call.pair i hi (fun q hq hqi => hf.2.1 q hq (hqi.trans hi.symm))
  obtain ⟨c', hshows, hc'⟩ := postgres_shows hi (hinv.sound call.pair) hheld hs.2.2 hf.2.2
  exact ⟨i, c', hi, hshows, hc'⟩

theorem agree_of_fits (hinv : Inv digest st) (hs : Supposed digest st call)
    (hf : Fits digest parse st call) : Agree digest parse st call := by
  obtain ⟨-, -, -, ⟨a, tables, hexec, hseen, -⟩, -⟩ := tofu_call hinv hs hf
  obtain ⟨-, -, -, ⟨b, tables', hexec', hseen', -⟩, -⟩ := postgres_call hinv hs hf
  refine ⟨?_, ?_, memory_shows (hinv.sound call.pair) hinv.named (hinv.memory call.pair)⟩
  · rw [hexec, ← hseen]
    rfl
  · rw [hexec', ← hseen']
    rfl

theorem sound_step (hinv : Inv digest st) (hs : Supposed digest st call) (p : String × String) :
    ((st.step digest parse call).live p).Sound (st.step digest parse call).clock := by
  have hp := hinv.sound p
  simp only [step]
  cases hop : call.op with
  | saveState n data =>
    have hnow := (hs.2.2.2 n data hop).2
    split
    · exact Live.sound_save hp hnow n data
    · exact Live.sound_mono hp (Nat.le_succ_of_le hnow)
  | deleteState n =>
    split
    · exact Live.sound_erase hp n
    · exact hp
  | getState n => simpa [Live.next] using hp
  | getParsedState n => simpa [Live.next] using hp
  | listStates => simpa [Live.next] using hp

theorem inv_step (st : Backends) (call : StateCall)
    (h : Supposed digest st call ∧ Fits digest parse st call) (hinv : Inv digest st) :
    Inv digest (st.step digest parse call) := by
  obtain ⟨i, c', hi, ⟨a, tables, hexec, -, hcontents⟩, hc'⟩ := tofu_call hinv h.1 h.2
  obtain ⟨j, d', hj, ⟨b, tables', hexec', -, hcontents'⟩, hd'⟩ := postgres_call hinv h.1 h.2
  have hlive : (st.step digest parse call).live = fun p =>
      if p = call.pair then (st.live call.pair).next call.now call.op else st.live p := by
    funext p
    simp only [step]
    split
    · next hp => rw [hp]
    · rfl
  refine ⟨sound_step hinv h.1, ?_, ?_, named_exec hinv.named call, fun p => ?_⟩
  · rw [hlive]
    simp only [step, hexec]
    rw [hcontents]
    exact represents_step hinv.tofu hi hc'
  · rw [hlive]
    simp only [step, hexec']
    rw [hcontents']
    exact represents_step hinv.postgres hj hd'
  · exact view_exec call p (hinv.memory p)

/-- In every run whose calls the tables can serve, the three backends agree. -/
theorem backends_agree {calls : List StateCall}
    (hs : Along (step digest parse) start calls (Supposed digest))
    (hf : Along (step digest parse) start calls (Fits digest parse)) :
    Along (step digest parse) start calls (Agree digest parse) := by
  intro pre call post he
  have hboth : Along (step digest parse) start (pre ++ call :: post)
      (fun st c => Supposed digest st c ∧ Fits digest parse st c) :=
    fun pre' c post' he' => ⟨hs pre' c post' (he.trans he'), hf pre' c post' (he.trans he')⟩
  rw [along_append_iff, along_cons_iff] at hboth
  have hinv := run_invariant_of_along inv_step inv_start hboth.1
  exact agree_of_fits hinv hboth.2.1.1 hboth.2.1.2

end Backends

end Runs

section Histories

open Backends

def eksCall (op : StateOp) (now : Nat) : StateCall := ⟨"pangea_camelot", "camelot-eks", op, now⟩

def eksData : ByteArray := "\x7b\x7d".toUTF8

def eksPair : String × String := ("pangea_camelot", "camelot-eks")

theorem eks_text : String.fromUTF8? eksData = some "\x7b\x7d" := by decide +kernel

theorem eks_supposed {op : StateOp} {now : Nat} {st : Backends} (hvalid : ValidOp op st.clock now) :
    Supposed id st (eksCall op now) := by
  have htofu : tofuIdent id eksPair = .ok "\"pangea_camelot_camelot-eks_states\".states" := by
    decide +kernel
  have hstore : storeIdent id eksPair = .ok "\"pangea_camelot\".\"camelot-eks_states\"" := by
    decide +kernel
  exact ⟨⟨_, htofu⟩, ⟨_, hstore⟩, hvalid⟩

theorem eks_valid {op : StateOp} {clock now : Nat} (hname : ∀ n ∈ op.stateName, ValidName n)
    (hsave : ∀ n data, op = .saveState n data → data = eksData ∧ clock ≤ now) :
    ValidOp op clock now := by
  refine ⟨hname, fun n data hop => ?_⟩
  obtain ⟨rfl, hnow⟩ := hsave n data hop
  exact ⟨by rw [eks_text]; rfl, hnow⟩

theorem eks_fits {op : StateOp} {now : Nat} {st : Backends} (hpairs : ∀ q ∈ st.pairs, q = eksPair)
    (hserved : Served (fun _ => some ()) (st.live eksPair) op) :
    Fits id (fun _ => some ()) st (eksCall op now) :=
  ⟨fun q hq _ => hpairs q hq, fun q hq _ => hpairs q hq, hserved⟩

theorem eks_save_served (l : Live) (n : String) :
    Served (fun _ => some ()) l (.saveState n eksData) := by
  intro text htext
  cases eks_text.symm.trans htext
  decide +kernel

theorem eks_name {n : String} (h : n = "default" ∨ n = "blue") : ValidName n := by
  rcases h with rfl | rfl
  · exact ⟨by decide +kernel, by decide +kernel⟩
  · exact ⟨by decide +kernel, by decide +kernel⟩

/-- Two saves, a listing, a parsed read and a deletion, of one template. -/
theorem saves_agree :
    Along (step id (fun _ => some ())) start
      [eksCall (.saveState "default" eksData) 1, eksCall (.saveState "blue" eksData) 2,
        eksCall .listStates 3, eksCall (.getParsedState "blue") 4,
        eksCall (.deleteState "default") 5]
      (Agree id (fun _ => some ())) := by
  apply backends_agree
  · rw [along_cons_iff, along_cons_iff, along_cons_iff, along_cons_iff, along_cons_iff]
    refine ⟨eks_supposed (eks_valid ?_ ?_), eks_supposed (eks_valid ?_ ?_),
      eks_supposed (eks_valid ?_ nofun), eks_supposed (eks_valid ?_ nofun),
      eks_supposed (eks_valid ?_ nofun), along_nil _ _ _⟩
    · exact fun n hn => eks_name (.inl (Option.some.inj hn).symm)
    · rintro n data ⟨⟩
      exact ⟨rfl, by decide⟩
    · exact fun n hn => eks_name (.inr (Option.some.inj hn).symm)
    · rintro n data ⟨⟩
      exact ⟨rfl, by decide⟩
    · nofun
    · exact fun n hn => eks_name (.inr (Option.some.inj hn).symm)
    · exact fun n hn => eks_name (.inl (Option.some.inj hn).symm)
  · rw [along_cons_iff, along_cons_iff, along_cons_iff, along_cons_iff, along_cons_iff]
    refine ⟨eks_fits ?_ (eks_save_served _ _), eks_fits ?_ (eks_save_served _ _), eks_fits ?_ ?_,
      eks_fits ?_ (fun _ _ => rfl), eks_fits ?_ trivial, along_nil _ _ _⟩
    · decide +kernel
    · decide +kernel
    · decide +kernel
    · simp only [Served]
      decide +kernel
    · decide +kernel
    · decide +kernel

/-- Bytes that do not parse are an error in the tables and nothing in memory; an entry that is
saved again is not listed first by OpenTofu's tables. -/
theorem backends_disagree :
    (¬Agree id (fun _ => (none : Option Unit))
      (run (step id (fun _ => (none : Option Unit))) start
        [eksCall (.saveState "default" eksData) 1]) (eksCall (.getParsedState "default") 2)) ∧
    ¬Agree id (fun _ => some ())
      (run (step id (fun _ => some ())) start
        [eksCall (.saveState "default" eksData) 1, eksCall (.saveState "blue" eksData) 2,
          eksCall (.saveState "default" eksData) 3]) (eksCall .listStates 4) := by
  constructor
  · intro h
    exact absurd h.1 (by decide +kernel)
  · intro h
    exact absurd h.1 (by decide +kernel)

end Histories

end PangeaOperator
