import Mathlib
import PangeaOperator.Lib.SqlTable

/-!
# State backends

The trait of `state_backend.rs` and its three implementations: `TofuPgStateBackend` over the
tables of OpenTofu, `PostgresStateBackend` over `StateStore`, and `InMemoryStateBackend`. The
parse of a state document and the digest of a long identifier are parameters.
-/

namespace PangeaOperator

inductive SqlxError where
  | io
  | poolTimedOut
  | poolClosed
  | database (code : Option String)
  | other
  deriving DecidableEq, Repr

inductive BackendError where
  | database (e : SqlxError)
  | serialization
  | config (message : String)
  | withContext (context : String) (source : BackendError)
  | other
  deriving DecidableEq, Repr

structure StateEntry where
  id : Nat
  name : String
  data : Option ByteArray
  createdAt : Nat
  deriving DecidableEq

inductive StateOp where
  | getState (stateName : String)
  | getParsedState (stateName : String)
  | saveState (stateName : String) (data : ByteArray)
  | deleteState (stateName : String)
  | listStates
  deriving DecidableEq

/-- A call, with the time of the clock at which it runs. -/
structure StateCall where
  schemaName : String
  templateName : String
  op : StateOp
  now : Nat
  deriving DecidableEq

def StateCall.pair (c : StateCall) : String × String := (c.schemaName, c.templateName)

inductive StateAnswer (σ : Type) where
  | entry (e : Option StateEntry)
  | parsed (state : Option σ)
  | saved (id : Nat)
  | deleted (removed : Bool)
  | listed (entries : List StateEntry)
  deriving DecidableEq

/-- An answer up to row ids and times. -/
inductive SeenAnswer (σ : Type) where
  | entry (e : Option (String × Option ByteArray))
  | parsed (state : Option σ)
  | saved
  | deleted (removed : Bool)
  | listed (entries : List (String × Option ByteArray))
  deriving DecidableEq

def StateEntry.seen (e : StateEntry) : String × Option ByteArray := (e.name, e.data)

def StateAnswer.seen {σ : Type} : StateAnswer σ → SeenAnswer σ
  | .entry e => .entry (e.map StateEntry.seen)
  | .parsed state => .parsed state
  | .saved _ => .saved
  | .deleted removed => .deleted removed
  | .listed entries => .listed (entries.map StateEntry.seen)

section Identifiers

def isValidIdentifier (name : String) : Bool :=
  match name.toList with
  | [] => false
  | first :: rest =>
    name.utf8ByteSize ≤ 63 && (first.isLower || first = '_') &&
      (first :: rest).all (fun c => c.isLower || c.isDigit || c = '_')

def sanitize (s : String) : String :=
  String.ofList (s.toList.map (fun c => if c = '-' ∨ c = '.' then '_' else c))

/-- The longest text of whole characters within a number of bytes. -/
def takeBytes : List Char → Nat → List Char
  | [], _ => []
  | c :: cs, n => if c.utf8Size ≤ n then c :: takeBytes cs (n - c.utf8Size) else []

/-- `PgIdent::bounded`; the digest is `blake3` in hex. -/
def pgIdentBounded (digest : String → String) (full : String) : String :=
  if full.utf8ByteSize ≤ 63 then full
  else
    String.ofList (takeBytes full.toList 52) ++ "_" ++ String.ofList ((digest full).toList.take 10)

def quoteIdent (s : String) : String :=
  "\"" ++ String.ofList (s.toList.flatMap (fun c => if c = '"' then ['"', '"'] else [c])) ++ "\""

def tofuStateTableIdent (digest : String → String) (schemaName templateName : String) :
    Except BackendError String :=
  if isValidIdentifier (sanitize schemaName) && isValidIdentifier (sanitize templateName) then
    .ok (quoteIdent (pgIdentBounded digest (schemaName ++ "_" ++ templateName ++ "_states")) ++
      ".states")
  else
    .error (.config
      s!"invalid schema/template identifier for state table: {schemaName}/{templateName}")

def qualifiedStateTable (digest : String → String) (schemaName templateName : String) :
    Except BackendError String :=
  let table := pgIdentBounded digest (templateName ++ "_states")
  if !isValidIdentifier (sanitize schemaName) then
    .error (.config s!"invalid schema identifier for state table: {schemaName}")
  else if !isValidIdentifier (sanitize table) then
    .error (.config s!"invalid template identifier for state table: {templateName}")
  else .ok (quoteIdent schemaName ++ "." ++ quoteIdent table)

end Identifiers

section Statements

def putTable {τ : Type} (tables : String → τ) (ident : String) (t : τ) : String → τ :=
  fun i => if i = ident then t else tables i

/-- A text of PostgreSQL holds no NUL (`22021`). -/
def bindText (s : String) : Except BackendError Unit :=
  if Char.ofNat 0 ∈ s.toList then .error (.database (.database (some "22021"))) else .ok ()

/-- The `VARCHAR(255)` of the store's name column (`22001`). -/
def fitsName (s : String) : Except BackendError Unit :=
  if s.toList.length ≤ 255 then .ok () else .error (.database (.database (some "22001")))

variable {σ : Type} (digest : String → String) (parse : ByteArray → Option σ)

/-- The match on the entry in `get_parsed_state` of both PostgreSQL backends. -/
def parseEntry (e : Option StateEntry) : Except BackendError (Option σ) :=
  match e.bind StateEntry.data with
  | some data =>
    match parse data with
    | some state => .ok (some state)
    | none => .error .serialization
  | none => .ok none

abbrev TofuTables := String → SqlTable String (Option String)

def tofuEntry (now : Nat) (r : SqlRow String (Option String)) : StateEntry :=
  ⟨r.id, r.key, r.value.map String.toUTF8, now⟩

namespace TofuPgStateBackend

def getState (t : SqlTable String (Option String)) (stateName : String) (now : Nat) :
    Except BackendError (Option StateEntry) := do
  bindText stateName
  .ok ((t.find stateName).map (tofuEntry now))

def fromUtf8 (data : ByteArray) : Except BackendError String :=
  match String.fromUTF8? data with
  | some text => .ok text
  | none => .error (.config "state bytes are not valid UTF-8")

def exec (tables : TofuTables) (call : StateCall) :
    Except BackendError (StateAnswer σ × TofuTables) := do
  let table ← tofuStateTableIdent digest call.schemaName call.templateName
  let t := tables table
  match call.op with
  | .getState stateName => do
    let e ← getState t stateName call.now
    .ok (.entry e, tables)
  | .getParsedState stateName => do
    let e ← getState t stateName call.now
    let state ← parseEntry parse e
    .ok (.parsed state, tables)
  | .saveState stateName data => do
    let text ← fromUtf8 data
    bindText stateName
    bindText text
    let t' := t.upsert stateName (some text)
    .ok (.saved (((t'.find stateName).map SqlRow.id).getD 0), putTable tables table t')
  | .deleteState stateName => do
    bindText stateName
    .ok (.deleted (0 < t.affected stateName), putTable tables table (t.delete stateName))
  | .listStates =>
    .ok (.listed ((orderByDesc SqlRow.id t.rows).map (tofuEntry call.now)), tables)

end TofuPgStateBackend

/-- The columns `data` and `created_at`. -/
structure StoreValue where
  data : Option ByteArray
  createdAt : Nat
  deriving DecidableEq

abbrev StoreTables := String → SqlTable String StoreValue

def storeEntry (r : SqlRow String StoreValue) : StateEntry :=
  ⟨r.id, r.key, r.value.data, r.value.createdAt⟩

namespace PostgresStateBackend

/-- The latest row of the name; the name is unique. -/
def getState (t : SqlTable String StoreValue) (stateName : String) :
    Except BackendError (Option StateEntry) := do
  bindText stateName
  .ok ((t.find stateName).map storeEntry)

def exec (tables : StoreTables) (call : StateCall) :
    Except BackendError (StateAnswer σ × StoreTables) := do
  let table ← qualifiedStateTable digest call.schemaName call.templateName
  let t := tables table
  match call.op with
  | .getState stateName => do
    let e ← getState t stateName
    .ok (.entry e, tables)
  | .getParsedState stateName => do
    let e ← getState t stateName
    let state ← parseEntry parse e
    .ok (.parsed state, tables)
  | .saveState stateName data => do
    bindText stateName
    fitsName stateName
    let t' := t.upsert stateName ⟨some data, call.now⟩
    .ok (.saved (((t'.find stateName).map SqlRow.id).getD 0), putTable tables table t')
  | .deleteState stateName => do
    bindText stateName
    .ok (.deleted (0 < t.affected stateName), putTable tables table (t.delete stateName))
  | .listStates =>
    .ok (.listed ((orderByDesc (fun r => r.value.createdAt) t.rows).map storeEntry), tables)

end PostgresStateBackend

/-- The map of `InnerState` in the order of its keys, and its id generator. -/
structure MemoryState where
  entries : List ((String × String × String) × StateEntry)
  nextId : Nat

namespace InMemoryStateBackend

def new : MemoryState := ⟨[], 1⟩

def keyLe (a b : (String × String × String) × StateEntry) : Prop :=
  a.1.1 < b.1.1 ∨ a.1.1 = b.1.1 ∧ (a.1.2.1 < b.1.2.1 ∨ a.1.2.1 = b.1.2.1 ∧ a.1.2.2 ≤ b.1.2.2)

instance : DecidableRel keyLe := fun a b => by unfold keyLe; infer_instance

def insert (m : MemoryState) (key : String × String × String) (e : StateEntry) : MemoryState :=
  ⟨(m.entries.filter (·.1 ≠ key)).orderedInsert keyLe (key, e), m.nextId + 1⟩

def get (m : MemoryState) (key : String × String × String) : Option StateEntry :=
  (m.entries.find? (·.1 = key)).map Prod.snd

def ofTemplate (m : MemoryState) (pair : String × String) : List StateEntry :=
  (m.entries.filter (fun x => x.1.1 = pair.1 && x.1.2.1 = pair.2)).map Prod.snd

def exec (m : MemoryState) (call : StateCall) : StateAnswer σ × MemoryState :=
  let key (stateName : String) := (call.schemaName, call.templateName, stateName)
  match call.op with
  | .getState stateName => (.entry (get m (key stateName)), m)
  | .getParsedState stateName =>
    (.parsed (((get m (key stateName)).bind StateEntry.data).bind parse), m)
  | .saveState stateName data =>
    (.saved m.nextId, insert m (key stateName) ⟨m.nextId, stateName, some data, call.now⟩)
  | .deleteState stateName =>
    (.deleted (get m (key stateName)).isSome,
      { m with entries := m.entries.filter (·.1 ≠ key stateName) })
  | .listStates => (.listed (orderByDesc StateEntry.createdAt (ofTemplate m call.pair)), m)

end InMemoryStateBackend

/-- The names and texts of a table of OpenTofu, in the order of the rows. -/
abbrev TofuContent := List (String × Option String)

def tofuSeen (e : String × Option String) : String × Option ByteArray :=
  (e.1, e.2.map String.toUTF8)

/-- What a call does to the names and texts of its table, and what it shows of them. -/
def execContent (c : TofuContent) : StateOp → Except BackendError (SeenAnswer σ × TofuContent)
  | .getState stateName => do
    bindText stateName
    .ok (.entry ((assocGet c stateName).map tofuSeen), c)
  | .getParsedState stateName => do
    bindText stateName
    match ((assocGet c stateName).map tofuSeen).bind Prod.snd with
    | some data =>
      match parse data with
      | some state => .ok (.parsed (some state), c)
      | none => .error .serialization
    | none => .ok (.parsed none, c)
  | .saveState stateName data => do
    let text ← TofuPgStateBackend.fromUtf8 data
    bindText stateName
    bindText text
    .ok (.saved, assocPut c stateName (some text))
  | .deleteState stateName => do
    bindText stateName
    .ok (.deleted (stateName ∈ c.map Prod.fst), assocErase c stateName)
  | .listStates => .ok (.listed (c.reverse.map tofuSeen), c)

variable {digest parse}

def contentsOf {κ ν : Type} (tables : String → SqlTable κ ν) (ident : String) : List (κ × ν) :=
  (tables ident).content

theorem contentsOf_putTable {κ ν : Type} (tables : String → SqlTable κ ν) (ident : String)
    (t : SqlTable κ ν) :
    contentsOf (putTable tables ident t) = putTable (contentsOf tables) ident t.content := by
  funext i
  simp only [contentsOf, putTable]
  split <;> rfl

theorem putTable_self {τ : Type} (tables : String → τ) (ident : String) :
    putTable tables ident (tables ident) = tables := by
  funext i
  unfold putTable
  split
  · next h => rw [h]
  · rfl

theorem seen_find (now : Nat) (t : SqlTable String (Option String)) (stateName : String) :
    ((t.find stateName).map (tofuEntry now)).map StateEntry.seen =
      (assocGet t.content stateName).map tofuSeen := by
  rw [← SqlTable.find_pair]
  cases t.find stateName <;> rfl

theorem data_find (now : Nat) (t : SqlTable String (Option String)) (stateName : String) :
    ((t.find stateName).map (tofuEntry now)).bind StateEntry.data =
      ((assocGet t.content stateName).map tofuSeen).bind Prod.snd := by
  rw [← SqlTable.find_pair]
  cases t.find stateName <;> rfl

theorem seen_rows (now : Nat) (t : SqlTable String (Option String)) :
    ((orderByDesc SqlRow.id t.rows).map (tofuEntry now)).map StateEntry.seen =
      t.content.reverse.map tofuSeen := by
  rw [SqlTable.orderById, SqlTable.content, ← List.map_reverse, List.map_map, List.map_map]
  rfl

/-- The answer of the tables, up to ids and times, and their contents are a matter of the
contents. -/
theorem tofu_exec_eq (tables : TofuTables) (call : StateCall) :
    (TofuPgStateBackend.exec digest parse tables call).map
        (fun r => (r.1.seen, contentsOf r.2)) =
      (do
        let table ← tofuStateTableIdent digest call.schemaName call.templateName
        let r ← execContent parse (contentsOf tables table) call.op
        .ok (r.1, putTable (contentsOf tables) table r.2)) := by
  unfold TofuPgStateBackend.exec
  cases tofuStateTableIdent digest call.schemaName call.templateName with
  | error e => rfl
  | ok table =>
    have hkept : putTable (contentsOf tables) table (tables table).content = contentsOf tables :=
      putTable_self (contentsOf tables) table
    have hcontent : contentsOf tables table = (tables table).content := rfl
    simp only [bind, Except.bind, hcontent]
    cases call.op with
    | getState stateName =>
      simp only [TofuPgStateBackend.getState, execContent, bind, Except.bind]
      cases bindText stateName with
      | error e => rfl
      | ok u => simp only [Except.map, StateAnswer.seen, hkept, seen_find]
    | getParsedState stateName =>
      simp only [TofuPgStateBackend.getState, execContent, parseEntry, bind, Except.bind]
      cases bindText stateName with
      | error e => rfl
      | ok u =>
        simp only [data_find]
        cases ((assocGet (tables table).content stateName).map tofuSeen).bind Prod.snd with
        | none => simp only [Except.map, StateAnswer.seen, hkept]
        | some data =>
          cases hparse : parse data with
          | none => simp only [hparse, Except.map]
          | some state => simp only [hparse, Except.map, StateAnswer.seen, hkept]
    | saveState stateName data =>
      simp only [execContent, bind, Except.bind]
      cases TofuPgStateBackend.fromUtf8 data with
      | error e => rfl
      | ok text =>
        cases bindText stateName with
        | error e => rfl
        | ok u =>
          cases htext : bindText text with
          | error e => simp only [htext, Except.map]
          | ok u =>
            simp only [htext, Except.map, StateAnswer.seen, contentsOf_putTable,
              SqlTable.content_upsert]
    | deleteState stateName =>
      simp only [execContent, bind, Except.bind]
      cases bindText stateName with
      | error e => rfl
      | ok u =>
        simp only [Except.map, StateAnswer.seen, contentsOf_putTable, SqlTable.content_delete,
          SqlTable.affected_pos_iff]
    | listStates => simp only [execContent, Except.map, StateAnswer.seen, hkept, seen_rows]

/-- A call may be made again: it finds what it left, and only a deletion answers differently. -/
theorem execContent_again {c c' : TofuContent} {op : StateOp} {a : SeenAnswer σ}
    (h : execContent parse c op = .ok (a, c')) :
    ∃ a', execContent parse c' op = .ok (a', c') ∧
      ((∀ stateName, op ≠ .deleteState stateName) → a' = a) := by
  cases op with
  | getState stateName =>
    have hkept : c' = c := by
      cases hbind : bindText stateName <;> simp_all [execContent, bind, Except.bind]
    subst hkept
    exact ⟨a, h, fun _ => rfl⟩
  | getParsedState stateName =>
    have hkept : c' = c := by
      simp only [execContent, bind, Except.bind] at h
      split at h
      · cases h
      · split at h
        · split at h <;> simp_all
        · simp_all
    subst hkept
    exact ⟨a, h, fun _ => rfl⟩
  | saveState stateName data =>
    simp only [execContent, bind, Except.bind] at h ⊢
    split at h
    · cases h
    · split at h
      · cases h
      · split at h
        · cases h
        · simp only [Except.ok.injEq, Prod.mk.injEq] at h
          obtain ⟨rfl, rfl⟩ := h
          exact ⟨.saved, by simp only [assocPut_idem], fun _ => rfl⟩
  | deleteState stateName =>
    simp only [execContent, bind, Except.bind] at h ⊢
    split at h
    · cases h
    · simp only [Except.ok.injEq, Prod.mk.injEq] at h
      obtain ⟨rfl, rfl⟩ := h
      refine ⟨_, by rw [assocErase_idem], fun hop => absurd rfl (hop stateName)⟩
  | listStates =>
    simp only [execContent, Except.ok.injEq, Prod.mk.injEq] at h
    obtain ⟨rfl, rfl⟩ := h
    exact ⟨_, rfl, fun _ => rfl⟩

end Statements

end PangeaOperator
