import Mathlib
import PangeaOperator.Lib.JsonText
import PangeaOperator.LeafMigration

/-!
# Runs of migrations

Statement by statement what a transaction has changed, then call by call what a commit leaves, then
over runs: nothing without a commit, one migration until it is reversed, and the fat state back as
it was.
-/

namespace PangeaOperator.Migrate

open SipHash

section Statements

variable {fails : Nat → Option SqlxError} {codec : Codec} {digest : String → String}
  {allowed : Stop → Prop} {tx : Tx} {table row schema fat : String} {bytes : List UInt8}

/-- A statement of the database that fails. -/
def Failed (fails : Nat → Option SqlxError) (stop : Stop) : Prop :=
  ∃ n e, fails n = some e ∧ stop = .failed (.database e)

def Stop.answer : Stop → Except BackendError Outcome
  | .failed e => .error e
  | .ended o => .ok o

/-- The answers of a call that does not commit. -/
def Uncommitted : Except BackendError Outcome → Prop
  | .error _ => True
  | .ok (.refused _) => True
  | .ok (.alreadyMigrated _) => True
  | .ok (.migrated _) => False
  | .ok (.reversed _) => False

/-- The transaction is dropped. -/
def Dropped (stop : Stop) : Prop := Uncommitted stop.answer

theorem dropped_of_failed {stop : Stop} (h : Failed fails stop) : Dropped stop := by
  obtain ⟨_, e, -, rfl⟩ := h
  trivial

/-- A text that the data column takes. -/
def Text (bytes : List UInt8) : Prop := (String.fromUTF8? ⟨bytes.toArray⟩).isSome

@[simp] theorem rows_setRow_self (db : Db) (table row : String)
    (v : Option (Option (List UInt8))) : (db.setRow table row v).rows table row = v :=
  if_pos ⟨rfl, rfl⟩

theorem rows_setRow_of_ne (db : Db) {table row t n : String} (v : Option (Option (List UInt8)))
    (h : ¬ (t = table ∧ n = row)) : (db.setRow table row v).rows t n = db.rows t n := if_neg h

@[simp] theorem receipts_setRow (db : Db) (table row : String)
    (v : Option (Option (List UInt8))) : (db.setRow table row v).receipts = db.receipts := rfl

@[simp] theorem rows_setReceipt (db : Db) (schema fat : String) (bytes : List UInt8) :
    (db.setReceipt schema fat bytes).rows = db.rows := rfl

@[simp] theorem receipts_setReceipt_self (db : Db) (schema fat : String) (bytes : List UInt8) :
    (db.setReceipt schema fat bytes).receipts schema fat = some bytes := if_pos ⟨rfl, rfl⟩

theorem receipts_setReceipt_of_ne (db : Db) {schema fat s t : String} (bytes : List UInt8)
    (h : ¬ (s = schema ∧ t = fat)) :
    (db.setReceipt schema fat bytes).receipts s t = db.receipts s t := if_neg h

variable (hfail : ∀ stop, Failed fails stop → allowed stop)

include hfail

theorem query_yields : Yields allowed (query fails tx) (fun tx' => tx'.db = tx.db) := by
  unfold query
  split
  · next e he => exact yields_error (hfail _ ⟨_, e, he, rfl⟩)
  · exact yields_ok rfl

theorem ensureArtifacts_yields :
    Yields allowed (ensureArtifacts fails tx) (fun tx' => tx'.db = tx.db) :=
  (query_yields hfail).bind fun _ h => (query_yields hfail).mono fun _ h' => h'.trans h

/-- What every call begins with. -/
theorem opened_yields {β : Type} {f : Tx → Except Stop β} {R : β → Prop}
    (hf : ∀ tx', tx'.db = tx.db → Yields allowed (f tx') R) :
    Yields allowed (query fails tx >>= fun tx => ensureArtifacts fails tx >>= f) R :=
  (query_yields hfail).bind fun _ h₁ => (ensureArtifacts_yields hfail).bind fun tx' h₂ =>
    hf tx' (h₂.trans h₁)

theorem readRow_yields : Yields allowed (readRow fails tx table row)
    (fun out => out.1 = (tx.db.rows table row).join ∧ out.2.db = tx.db) :=
  (query_yields hfail).bind fun _ h => yields_ok ⟨by rw [h], h⟩

theorem ensureTable_yields {template : String} (hident : ∀ e, allowed (.failed e)) :
    Yields allowed (ensureTable fails digest tx schema template)
      (fun out => tofuStateTableIdent digest schema template = .ok out.1 ∧ out.2.db = tx.db) := by
  unfold ensureTable tableIdent
  cases ht : tofuStateTableIdent digest schema template with
  | error e => exact yields_error (hident e)
  | ok table =>
    refine (query_yields hfail).bind fun tx₁ h₁ => (query_yields hfail).bind fun tx₂ h₂ => ?_
    exact yields_ok ⟨rfl, h₂.trans h₁⟩

theorem upsertRow_yields (htext : ¬ Text bytes → ∀ e, allowed (.failed e)) :
    Yields allowed (upsertRow fails codec tx table row bytes)
      (fun tx' => Text bytes ∧ tx'.db = tx.db.setRow table row (some (some bytes))) := by
  unfold upsertRow checkText
  split
  · next h => exact (query_yields hfail).bind fun tx' h' => yields_ok ⟨h, by rw [h']⟩
  · next h => exact yields_error (htext h _)

theorem insertRow_yields (hany : ∀ e, allowed (.failed e)) :
    Yields allowed (insertRow fails codec tx table row bytes)
      (fun tx' => Text bytes ∧ tx.db.rows table row = none ∧
        tx'.db = tx.db.setRow table row (some (some bytes))) := by
  unfold insertRow checkText
  split
  · next h =>
    refine (query_yields hfail).bind fun tx' h' => ?_
    split
    · exact yields_error (hany _)
    · next hfree =>
      rw [h', Option.not_isSome_iff_eq_none] at hfree
      exact yields_ok ⟨h, hfree, by rw [h']⟩
  · exact yields_error (hany _)

theorem deleteRow_yields : Yields allowed (deleteRow fails tx table row)
    (fun tx' => tx'.db = tx.db.setRow table row none) :=
  (query_yields hfail).bind fun _ h => yields_ok (by rw [h])

theorem readReceipt_yields (hany : ∀ e, allowed (.failed e)) :
    Yields allowed (readReceipt fails codec tx schema fat) (fun out => out.2.db = tx.db) := by
  refine (query_yields hfail).bind fun tx' h => ?_
  split
  · exact yields_ok h
  · split
    · exact yields_error (hany _)
    · exact yields_ok h

/-- A stored receipt is read as it was written. -/
theorem readReceipt_stored {r : Receipt} (hstored : tx.db.receipts schema fat = some bytes)
    (hdecode : codec.fromSlice bytes = .ok r) :
    Yields allowed (readReceipt fails codec tx schema fat) (fun out =>
      out.1 = some r ∧ out.2.db = tx.db) := by
  refine (query_yields hfail).bind fun tx' h => ?_
  rw [h, hstored]
  dsimp only
  rw [hdecode]
  exact yields_ok ⟨rfl, h⟩

theorem writeReceipt_yields {r : Receipt}
    (henc : (∃ e, codec.toVec r = .error e) → ∀ e, allowed (.failed e)) :
    Yields allowed (writeReceipt fails codec tx schema fat r)
      (fun tx' => ∃ bytes, codec.toVec r = .ok bytes ∧
        tx'.db = tx.db.setReceipt schema fat bytes) := by
  unfold writeReceipt
  cases hvec : codec.toVec r with
  | error e => exact yields_error (henc ⟨e, hvec⟩ _)
  | ok bytes => exact (query_yields hfail).bind fun tx' h => yields_ok ⟨bytes, rfl, by rw [h]⟩

end Statements

section Forward

variable {x : Externals} {fails : Nat → Option SqlxError} {codec : Codec}
  {digest : String → String} {tx : Tx} {schema fat : String}

/-- What writing some leaves does to the rows. -/
structure LeavesMade (digest : String → String) (schema : String) (leaves : List LeafState)
    (db db' : Db) : Prop where
  made : ∀ leaf ∈ leaves, ∃ table, tofuStateTableIdent digest schema leaf.template = .ok table ∧
    Text leaf.bytes ∧ db.rows table liveRow = none ∧
      db'.rows table liveRow = some (some leaf.bytes)
  kept : ∀ table, (db.rows table liveRow).isSome → db'.rows table liveRow = db.rows table liveRow
  others : ∀ table row, row ≠ liveRow → db'.rows table row = db.rows table row
  receipts : db'.receipts = db.receipts

theorem createLeaves_yields {leaves : List LeafState} :
    Yields Dropped (createLeaves codec digest fails schema leaves tx)
      (fun tx' => LeavesMade digest schema leaves tx.db tx'.db) := by
  have hfail : ∀ stop, Failed fails stop → Dropped stop := fun _ => dropped_of_failed
  induction leaves generalizing tx with
  | nil => exact yields_ok ⟨nofun, fun _ _ => rfl, fun _ _ _ => rfl, rfl⟩
  | cons leaf rest ih =>
    refine (ensureTable_yields hfail fun _ => trivial).bind ?_
    rintro ⟨table, tx₁⟩ ⟨hident, h₁⟩
    refine (readRow_yields hfail).bind ?_
    rintro ⟨row, tx₂⟩ ⟨-, h₂⟩
    dsimp only at h₁ h₂ ⊢
    split
    · exact yields_error trivial
    · refine (insertRow_yields hfail fun _ => trivial).bind ?_
      rintro tx₃ ⟨htext, hfree, h₃⟩
      rw [h₂, h₁] at hfree h₃
      refine ih.mono fun tx' hrest => ?_
      have hlive : (tx₃.db.rows table liveRow) = some (some leaf.bytes) := by rw [h₃]; simp
      refine ⟨fun l hl => ?_, fun t ht => ?_, fun t n hn => ?_, ?_⟩
      · rcases List.mem_cons.mp hl with rfl | hl
        · exact ⟨table, hident, htext, hfree, by rw [hrest.kept table (by rw [hlive]; rfl), hlive]⟩
        · obtain ⟨t, ht, htext', hnone, hmade⟩ := hrest.made l hl
          refine ⟨t, ht, htext', ?_, hmade⟩
          by_cases hsame : t = table
          · rwa [hsame]
          · rwa [h₃, rows_setRow_of_ne _ _ (fun h => hsame h.1)] at hnone
      · have hne : t ≠ table := by
          rintro rfl
          rw [hfree] at ht
          cases ht
        have hsame : tx₃.db.rows t liveRow = tx.db.rows t liveRow := by
          rw [h₃, rows_setRow_of_ne _ _ (fun h => hne h.1)]
        rw [hrest.kept t (by rwa [hsame]), hsame]
      · rw [hrest.others t n hn, h₃, rows_setRow_of_ne _ _ (fun h => hn h.2)]
      · rw [hrest.receipts, h₃, receipts_setRow]

theorem readBack_yields {leaves : List LeafState} :
    Yields Dropped (readBack digest fails schema leaves tx)
      (fun out => out.2.db = tx.db) := by
  have hfail : ∀ stop, Failed fails stop → Dropped stop := fun _ => dropped_of_failed
  induction leaves generalizing tx with
  | nil => exact yields_ok rfl
  | cons leaf rest ih =>
    unfold readBack tableIdent
    cases ht : tofuStateTableIdent digest schema leaf.template with
    | error e => exact yields_error trivial
    | ok table =>
      refine (readRow_yields hfail).bind ?_
      rintro ⟨row, tx₁⟩ ⟨-, h₁⟩
      refine ih.bind ?_
      rintro ⟨leaves, tx₂⟩ h₂
      exact yields_ok (h₂.trans h₁)

/-- A migration: the fat state is there and stays, its archive and its leaves are new, and the
receipt tells of them. -/
structure Forwarded (x : Externals) (codec : Codec) (digest : String → String)
    (schema fat : String) (db db' : Db) (r : Receipt) (fatTable : String) (fatBytes : List UInt8) :
    Prop where
  table : tofuStateTableIdent digest schema fat = .ok fatTable
  live : db.rows fatTable liveRow = some (some fatBytes)
  kept : db'.rows fatTable liveRow = some (some fatBytes)
  archived : db'.rows fatTable archiveRow = some (some fatBytes)
  text : Text fatBytes
  direction : r.direction = .forward
  archive : r.archiveHash = contentHash x fatBytes
  distinct : (r.leaves.map LeafReceipt.template).Nodup
  leaves : ∀ l ∈ r.leaves, ∃ table bytes, tofuStateTableIdent digest schema l.template = .ok table ∧
    table ≠ fatTable ∧ Text bytes ∧ contentHash x bytes = l.contentHash ∧
      db.rows table liveRow = none ∧ db'.rows table liveRow = some (some bytes)
  others : ∀ table row, row ≠ liveRow → ¬ (table = fatTable ∧ row = archiveRow) →
    db'.rows table row = db.rows table row
  stored : ∃ bytes, db'.receipts schema fat = some bytes ∧ codec.toVec r = .ok bytes
  receipts : ∀ s t, ¬ (s = schema ∧ t = fat) → db'.receipts s t = db.receipts s t

theorem orRefuse_yields {α : Type} {r : Except MigrateError α} :
    Yields Dropped (orRefuse r) (fun a => r = .ok a) := by
  cases r with
  | ok a => exact yields_ok rfl
  | error e => exact yields_error trivial

/-- Leaves that a receipt tells of have its names. -/
theorem templates_eq {leaves : List LeafState} {rs : List LeafReceipt}
    (h : leaves.map (fun l => (l.template, contentHash x l.bytes)) =
      rs.map fun r => (r.template, r.contentHash)) :
    leaves.map LeafState.template = rs.map LeafReceipt.template := by
  have hnames := congrArg (List.map Prod.fst) h
  rwa [List.map_map, List.map_map] at hnames

/-- The rows after the archive and the leaves are written tell of the receipt. -/
theorem forwarded_of_made {r : Split} {db db₁ db₂ db₃ : Db} {fatTable : String}
    {fatBytes : List UInt8} (htable : tofuStateTableIdent digest schema fat = .ok fatTable)
    (hlive : db.rows fatTable liveRow = some (some fatBytes)) (htext : Text fatBytes)
    (hreceipted : Receipted x fatBytes r)
    (h₁ : db₁ = db.setRow fatTable archiveRow (some (some fatBytes)))
    (h₂ : LeavesMade digest schema r.leaves db₁ db₂)
    (h₃ : ∃ bytes, codec.toVec r.receipt = .ok bytes ∧ db₃ = db₂.setReceipt schema fat bytes) :
    Forwarded x codec digest schema fat db db₃ r.receipt fatTable fatBytes := by
  obtain ⟨bytes, hvec, h₃⟩ := h₃
  have hrow : archiveRow ≠ liveRow := by decide
  have hlive₁ (t : String) : db₁.rows t liveRow = db.rows t liveRow := by
    rw [h₁, rows_setRow_of_ne _ _ (fun h => hrow h.2.symm)]
  have hrows : db₃.rows = db₂.rows := by rw [h₃, rows_setReceipt]
  refine {
    table := htable
    live := hlive
    kept := ?_
    archived := ?_
    text := htext
    direction := hreceipted.direction
    archive := hreceipted.archive
    distinct := by
      rw [← templates_eq hreceipted.leaves.symm]
      exact hreceipted.distinct
    leaves := fun l hl => ?_
    others := fun t n hn hother => ?_
    stored := ⟨bytes, by rw [h₃, receipts_setReceipt_self], hvec⟩
    receipts := fun s t hne => ?_ }
  · rw [hrows, h₂.kept fatTable (by rw [hlive₁, hlive]; rfl), hlive₁, hlive]
  · rw [hrows, h₂.others fatTable archiveRow hrow, h₁, rows_setRow_self]
  · have hmem : (l.template, l.contentHash) ∈
        r.leaves.map fun leaf => (leaf.template, contentHash x leaf.bytes) := by
      rw [← hreceipted.leaves]
      exact List.mem_map_of_mem hl
    obtain ⟨leaf, hleaf, heq⟩ := List.mem_map.mp hmem
    obtain ⟨hname, hhash⟩ := Prod.mk.injEq .. ▸ heq
    obtain ⟨t, ht, htext', hfree, hmade⟩ := h₂.made leaf hleaf
    refine ⟨t, leaf.bytes, hname ▸ ht, ?_, htext', hhash, hlive₁ t ▸ hfree, hrows ▸ hmade⟩
    rintro rfl
    rw [hlive₁, hlive] at hfree
    cases hfree
  · rw [hrows, h₂.others t n hn, h₁, rows_setRow_of_ne _ _ hother]
  · rw [h₃, receipts_setReceipt_of_ne _ _ hne, h₂.receipts, h₁, receipts_setRow]

/-- What a forward call comes to a commit with. -/
theorem forwardIn_yields {makeMoves : List UInt8 → Except MigrateError (List StateMove)} :
    Yields Dropped (forwardIn x codec digest fails schema fat makeMoves tx)
      (fun out => ∃ r fatTable fatBytes, out.1 = .migrated r ∧
        Forwarded x codec digest schema fat tx.db out.2.db r fatTable fatBytes) := by
  have hfail : ∀ stop, Failed fails stop → Dropped stop := fun _ => dropped_of_failed
  refine opened_yields hfail fun tx₂ h₂ => ?_
  refine (readReceipt_yields hfail fun _ => trivial).bind ?_
  rintro ⟨receipt, tx₃⟩ h₃
  dsimp only at h₃ ⊢
  have hdb₃ : tx₃.db = tx.db := h₃.trans h₂
  split
  · exact yields_error trivial
  unfold tableIdent
  cases htable : tofuStateTableIdent digest schema fat with
  | error e => exact yields_error trivial
  | ok fatTable =>
    refine (readRow_yields hfail).bind ?_
    rintro ⟨row, tx₄⟩ ⟨hrow, h₄⟩
    dsimp only at hrow h₄ ⊢
    split
    · exact yields_error trivial
    · next fatBytes =>
      rw [hdb₃] at hrow h₄
      have hlive : tx.db.rows fatTable liveRow = some (some fatBytes) :=
        Option.join_eq_some_iff.mp hrow.symm
      refine orRefuse_yields.bind fun moves _ => orRefuse_yields.bind fun s hs => ?_
      refine (upsertRow_yields hfail fun _ _ => trivial).bind ?_
      rintro tx₅ ⟨htext, h₅⟩
      refine createLeaves_yields.bind fun tx₆ h₆ => readBack_yields.bind ?_
      rintro ⟨leaves, tx₇⟩ h₇
      refine orRefuse_yields.bind fun _ _ => (readRow_yields hfail).bind ?_
      rintro ⟨again, tx₈⟩ ⟨-, h₈⟩
      dsimp only at h₇ h₈ ⊢
      split
      · exact yields_error trivial
      · refine (writeReceipt_yields hfail fun _ _ => trivial).bind ?_
        rintro tx₉ ⟨bytes, hvec, h₉⟩
        rw [h₈, h₇] at h₉
        rw [h₄] at h₅
        exact yields_ok ⟨s.receipt, fatTable, fatBytes, rfl,
          forwarded_of_made htable hlive htext (split_receipted hs) h₅ h₆ ⟨bytes, hvec, h₉⟩⟩

end Forward

section Reverse

variable {x : Externals} {fails : Nat → Option SqlxError} {codec : Codec}
  {digest : String → String} {tx : Tx} {schema fat : String}

/-- What a reverse call comes to a commit with, whatever it found. -/
theorem readLeaves_db {rs : List LeafReceipt} :
    Yields Dropped (readLeaves digest fails schema rs tx) (fun out => out.2.db = tx.db) := by
  have hfail : ∀ stop, Failed fails stop → Dropped stop := fun _ => dropped_of_failed
  induction rs generalizing tx with
  | nil => exact yields_ok rfl
  | cons l rest ih =>
    unfold readLeaves tableIdent
    cases ht : tofuStateTableIdent digest schema l.template with
    | error e => exact yields_error trivial
    | ok table =>
      refine (readRow_yields hfail).bind ?_
      rintro ⟨row, tx₁⟩ ⟨-, h₁⟩
      dsimp only
      split
      · exact yields_error trivial
      · refine ih.bind ?_
        rintro ⟨leaves, tx₂⟩ h₂
        exact yields_ok (h₂.trans h₁)

theorem retireLeaves_receipts {leaves : List LeafState} :
    Yields Dropped (retireLeaves codec digest fails schema leaves tx)
      (fun tx' => tx'.db.receipts = tx.db.receipts) := by
  have hfail : ∀ stop, Failed fails stop → Dropped stop := fun _ => dropped_of_failed
  induction leaves generalizing tx with
  | nil => exact yields_ok rfl
  | cons leaf rest ih =>
    unfold retireLeaves tableIdent
    cases ht : tofuStateTableIdent digest schema leaf.template with
    | error e => exact yields_error trivial
    | ok table =>
      refine (upsertRow_yields hfail fun _ _ => trivial).bind ?_
      rintro tx₁ ⟨-, h₁⟩
      refine (deleteRow_yields hfail).bind fun tx₂ h₂ => ih.mono fun tx₃ h₃ => ?_
      rw [h₃, h₂, h₁]
      rfl

theorem reverseIn_yields : Yields Dropped (reverseIn x codec digest fails schema fat tx)
    (fun out => (∃ r, out.1 = .reversed r) ∧
      ∀ s t, ¬ (s = schema ∧ t = fat) → out.2.db.receipts s t = tx.db.receipts s t) := by
  have hfail : ∀ stop, Failed fails stop → Dropped stop := fun _ => dropped_of_failed
  refine opened_yields hfail fun tx₂ h₂ => ?_
  refine (readReceipt_yields hfail fun _ => trivial).bind ?_
  rintro ⟨receipt, tx₃⟩ h₃
  dsimp only at h₃ ⊢
  split
  · exact yields_error trivial
  · next receipt =>
    split
    · exact yields_error trivial
    unfold tableIdent
    cases htable : tofuStateTableIdent digest schema fat with
    | error e => exact yields_error trivial
    | ok fatTable =>
      refine (readRow_yields hfail).bind ?_
      rintro ⟨row, tx₄⟩ ⟨-, h₄⟩
      dsimp only at h₄ ⊢
      split
      · exact yields_error trivial
      · refine readLeaves_db.bind ?_
        rintro ⟨leaves, tx₅⟩ h₅
        refine orRefuse_yields.bind fun merged _ =>
          (upsertRow_yields hfail fun _ _ => trivial).bind ?_
        rintro tx₆ ⟨-, h₆⟩
        refine retireLeaves_receipts.bind fun tx₇ h₇ =>
          (writeReceipt_yields hfail fun _ _ => trivial).bind ?_
        rintro tx₈ ⟨bytes, -, h₈⟩
        refine yields_ok ⟨⟨_, rfl⟩, fun s t hne => ?_⟩
        have hsame : tx₇.db.receipts = tx.db.receipts := by
          rw [h₇, h₆, receipts_setRow]
          rw [show tx₅.db = tx.db from h₅.trans (h₄.trans (h₃.trans h₂))]
        rw [show _ = _ from h₈, receipts_setReceipt_of_ne _ _ hne, hsame]

/-- The leaves of a migration are read as they were written. -/
theorem readLeaves_yields {fatTable : String} {rs : List LeafReceipt}
    (h : ∀ l ∈ rs, ∃ table bytes, tofuStateTableIdent digest schema l.template = .ok table ∧
      table ≠ fatTable ∧ Text bytes ∧ contentHash x bytes = l.contentHash ∧
        tx.db.rows table liveRow = some (some bytes)) :
    Yields (Failed fails) (readLeaves digest fails schema rs tx) (fun out =>
      out.2.db = tx.db ∧ out.1.map (fun l => (l.template, contentHash x l.bytes)) =
        rs.map (fun r => (r.template, r.contentHash)) ∧
      ∀ leaf ∈ out.1, Text leaf.bytes ∧ ∃ table,
        tofuStateTableIdent digest schema leaf.template = .ok table ∧ table ≠ fatTable) := by
  induction rs generalizing tx with
  | nil => exact yields_ok ⟨rfl, rfl, nofun⟩
  | cons l rest ih =>
    obtain ⟨table, bytes, hident, hne, htext, hhash, hrow⟩ := h l List.mem_cons_self
    unfold readLeaves tableIdent
    rw [hident]
    refine (readRow_yields fun _ h => h).bind ?_
    rintro ⟨row, tx₁⟩ ⟨hread, h₁⟩
    dsimp only at hread h₁ ⊢
    rw [hrow] at hread
    rw [hread]
    have hrest := fun q hq => h q (List.mem_cons_of_mem l hq)
    rw [← h₁] at hrest
    refine (ih hrest).bind ?_
    rintro ⟨leaves, tx₂⟩ ⟨h₂, hmap, hleaves⟩
    refine yields_ok ⟨h₂.trans h₁, by rw [List.map_cons, List.map_cons, hmap, hhash], ?_⟩
    intro leaf hleaf
    rcases List.mem_cons.mp hleaf with rfl | hleaf
    · exact ⟨htext, table, hident, hne⟩
    · exact hleaves leaf hleaf

theorem retireLeaves_yields {fatTable : String} {leaves : List LeafState}
    (h : ∀ leaf ∈ leaves, Text leaf.bytes ∧ ∃ table,
      tofuStateTableIdent digest schema leaf.template = .ok table ∧ table ≠ fatTable) :
    Yields (Failed fails) (retireLeaves codec digest fails schema leaves tx) (fun tx' =>
      tx'.db.rows fatTable liveRow = tx.db.rows fatTable liveRow ∧
      (∀ leaf ∈ leaves, ∃ table, tofuStateTableIdent digest schema leaf.template = .ok table ∧
        tx'.db.rows table liveRow = none) ∧
      ∀ table, tx.db.rows table liveRow = none → tx'.db.rows table liveRow = none) := by
  induction leaves generalizing tx with
  | nil => exact yields_ok ⟨rfl, nofun, fun _ h => h⟩
  | cons leaf rest ih =>
    obtain ⟨htext, table, hident, hne⟩ := h leaf List.mem_cons_self
    have hrow : liveRow ≠ revertedRow := by decide
    unfold retireLeaves tableIdent
    rw [hident]
    refine (upsertRow_yields (fun _ h => h) fun hbad => absurd htext hbad).bind ?_
    rintro tx₁ ⟨-, h₁⟩
    refine (deleteRow_yields fun _ h => h).bind fun tx₂ h₂ => ?_
    have hother (t : String) (ht : t ≠ table) :
        tx₂.db.rows t liveRow = tx.db.rows t liveRow := by
      rw [h₂, rows_setRow_of_ne _ _ (fun h => ht h.1), h₁, rows_setRow_of_ne _ _ (fun h => ht h.1)]
    have hgone : tx₂.db.rows table liveRow = none := by rw [h₂, rows_setRow_self]
    refine (ih fun q hq => h q (List.mem_cons_of_mem leaf hq)).mono ?_
    rintro tx₃ ⟨hfat, hretired, hnone⟩
    refine ⟨hfat.trans (hother fatTable (Ne.symm hne)), fun q hq => ?_, fun t ht => ?_⟩
    · rcases List.mem_cons.mp hq with rfl | hq
      · exact ⟨table, hident, hnone table hgone⟩
      · exact hretired q hq
    · refine hnone t ?_
      by_cases hsame : t = table
      · rw [hsame, hgone]
      · rw [hother t hsame, ht]

/-- Receipts are always written and read back. -/
structure Codec.Lawful (codec : Codec) : Prop where
  total : ∀ r, ∃ bytes, codec.toVec r = .ok bytes
  inverse : ∀ r bytes, codec.toVec r = .ok bytes → codec.fromSlice bytes = .ok r

/-- The fat state is back and no leaf is live. -/
structure Restored (digest : String → String) (schema : String) (db : Db) (r : Receipt)
    (fatTable : String) (fatBytes : List UInt8) : Prop where
  fat : db.rows fatTable liveRow = some (some fatBytes)
  leaves : ∀ l ∈ r.leaves, ∃ table, tofuStateTableIdent digest schema l.template = .ok table ∧
    db.rows table liveRow = none

theorem Forwarded.merge {db db' : Db} {r : Receipt} {fatTable : String} {fatBytes : List UInt8}
    {leaves : List LeafState} (h : Forwarded x codec digest schema fat db db' r fatTable fatBytes)
    (hmap : leaves.map (fun l => (l.template, contentHash x l.bytes)) =
      r.leaves.map fun l => (l.template, l.contentHash)) :
    Migrate.merge x fatBytes r leaves = .ok fatBytes :=
  merge_unmoved h.archive.symm (templates_eq hmap ▸ h.distinct) hmap

/-- Retiring every leaf of a receipt by its name leaves none of them live. -/
theorem retired_of_templates {db : Db} {r : Receipt} {leaves : List LeafState}
    (hnames : leaves.map LeafState.template = r.leaves.map LeafReceipt.template)
    (h : ∀ leaf ∈ leaves, ∃ table, tofuStateTableIdent digest schema leaf.template = .ok table ∧
      db.rows table liveRow = none) :
    ∀ l ∈ r.leaves, ∃ table, tofuStateTableIdent digest schema l.template = .ok table ∧
      db.rows table liveRow = none := by
  intro l hl
  have hmem : l.template ∈ leaves.map LeafState.template := by
    rw [hnames]
    exact List.mem_map_of_mem hl
  obtain ⟨leaf, hleaf, hname⟩ := List.mem_map.mp hmem
  obtain ⟨t, ht, hnone⟩ := h leaf hleaf
  exact ⟨t, hname ▸ ht, hnone⟩

/-- A reversal right after a migration goes through unless a statement fails. -/
theorem reverse_after_forward (hcodec : codec.Lawful) {db : Db} {r : Receipt} {fatTable : String}
    {fatBytes : List UInt8}
    (h : Forwarded x codec digest schema fat db tx.db r fatTable fatBytes) :
    Yields (Failed fails) (reverseIn x codec digest fails schema fat tx) (fun out =>
      out.1 = .reversed { r with direction := .reversed } ∧
        Restored digest schema out.2.db r fatTable fatBytes) := by
  have hfail : ∀ stop, Failed fails stop → Failed fails stop := fun _ h => h
  obtain ⟨stored, hstored, hvec⟩ := h.stored
  refine opened_yields hfail fun tx₂ h₂ => ?_
  refine (readReceipt_stored hfail (by rw [h₂]; exact hstored)
    (hcodec.inverse r stored hvec)).bind ?_
  rintro ⟨receipt, tx₃⟩ ⟨hreceipt, h₃⟩
  dsimp only at hreceipt h₃
  rw [hreceipt]
  dsimp only
  rw [if_neg (not_not.mpr h.direction)]
  unfold tableIdent
  rw [h.table]
  refine (readRow_yields hfail).bind ?_
  rintro ⟨row, tx₄⟩ ⟨hrow, h₄⟩
  dsimp only at hrow h₄ ⊢
  have hdb₃ : tx₃.db = tx.db := h₃.trans h₂
  rw [hdb₃, h.archived] at hrow
  rw [hdb₃] at h₄
  rw [hrow]
  have hpresent : ∀ l ∈ r.leaves, ∃ table bytes,
      tofuStateTableIdent digest schema l.template = .ok table ∧ table ≠ fatTable ∧ Text bytes ∧
        contentHash x bytes = l.contentHash ∧ tx₄.db.rows table liveRow = some (some bytes) := by
    intro l hl
    obtain ⟨t, bytes, ht, hne, htext, hhash, -, hmade⟩ := h.leaves l hl
    exact ⟨t, bytes, ht, hne, htext, hhash, h₄ ▸ hmade⟩
  refine (readLeaves_yields hpresent).bind ?_
  rintro ⟨leaves, tx₅⟩ ⟨h₅, hmap, hleaves⟩
  dsimp only at h₅ hmap hleaves ⊢
  rw [h.merge hmap]
  refine (upsertRow_yields hfail fun hbad => absurd h.text hbad).bind ?_
  rintro tx₆ ⟨-, h₆⟩
  refine (retireLeaves_yields hleaves).bind ?_
  rintro tx₇ ⟨hfat, hretired, -⟩
  refine (writeReceipt_yields hfail fun hbad => ?_).bind ?_
  · obtain ⟨e, he⟩ := hbad
    obtain ⟨bytes, hbytes⟩ := hcodec.total { r with direction := .reversed }
    rw [hbytes] at he
    cases he
  · rintro tx₈ ⟨bytes, -, h₈⟩
    have hrows : tx₈.db.rows = tx₇.db.rows := by rw [show tx₈.db = _ from h₈, rows_setReceipt]
    refine yields_ok ⟨rfl, ?_, retired_of_templates (templates_eq hmap) ?_⟩
    · change tx₈.db.rows fatTable liveRow = _
      rw [hrows, hfat, h₆, rows_setRow_self]
    · change ∀ leaf ∈ leaves, ∃ table, _ ∧ tx₈.db.rows table liveRow = none
      rw [hrows]
      exact hretired

end Reverse

section Runs

variable {x : Externals} {fails : Nat → Option SqlxError} {codec : Codec}
  {digest : String → String} {schema fat : String} {db : Db}

/-- The receipt of a migration that is not reversed is stored. -/
def Standing (codec : Codec) (schema fat : String) (r : Receipt) (db : Db) : Prop :=
  r.direction = .forward ∧ ∃ bytes, db.receipts schema fat = some bytes ∧
    codec.fromSlice bytes = .ok r

def Call.Reverses (schema fat : String) : Call → Prop
  | .forward _ _ _ _ => False
  | .reverse s t _ => s = schema ∧ t = fat

/-- A call commits what it yields, or it leaves the database and answers why it stopped. -/
theorem close_of_yields (db : Db) {allowed : Stop → Prop} {r : Except Stop (Outcome × Tx)}
    {P : Outcome × Tx → Prop} (hfail : ∀ stop, Failed fails stop → allowed stop)
    (h : Yields allowed r P) :
    (∃ out, P out ∧ close fails db r = (.ok out.1, out.2.db)) ∨
      ∃ stop, allowed stop ∧ close fails db r = (stop.answer, db) := by
  rcases r with stop | ⟨o, tx⟩
  · refine .inr ⟨stop, h, ?_⟩
    cases stop <;> rfl
  · unfold close
    dsimp only
    cases hf : fails tx.ran with
    | some e => exact .inr ⟨.failed (.database e), hfail _ ⟨tx.ran, e, hf, rfl⟩, rfl⟩
    | none => exact .inl ⟨(o, tx), h, rfl⟩

/-- What a call does: it migrates, it reverses, or it is dropped. -/
theorem exec_cases (x : Externals) (codec : Codec) (digest : String → String) (db : Db)
    (call : Call) :
    (∃ schema fat makeMoves fails r fatTable fatBytes, call = .forward schema fat makeMoves fails ∧
      (exec x codec digest db call).1 = .ok (.migrated r) ∧
      Forwarded x codec digest schema fat db (db.step x codec digest call) r fatTable fatBytes) ∨
    (∃ schema fat fails r, call = .reverse schema fat fails ∧
      (exec x codec digest db call).1 = .ok (.reversed r) ∧
      ∀ s t, ¬ (s = schema ∧ t = fat) →
        (db.step x codec digest call).receipts s t = db.receipts s t) ∨
    (Uncommitted (exec x codec digest db call).1 ∧ db.step x codec digest call = db) := by
  unfold Db.step
  cases call with
  | forward schema fat makeMoves fails =>
    have hyields : Yields Dropped (forwardIn x codec digest fails schema fat makeMoves ⟨db, 0⟩) _ :=
      forwardIn_yields
    rcases close_of_yields db (fun _ => dropped_of_failed) hyields with
      ⟨out, ⟨r, fatTable, fatBytes, hout, hf⟩, he⟩ | ⟨stop, hstop, he⟩
    · refine .inl ⟨schema, fat, makeMoves, fails, r, fatTable, fatBytes, rfl, ?_, ?_⟩
      · rw [exec, he, hout]
      · rw [exec, he]
        exact hf
    · refine .inr (.inr ⟨?_, ?_⟩)
      · rw [exec, he]
        exact hstop
      · rw [exec, he]
  | reverse schema fat fails =>
    have hyields : Yields Dropped (reverseIn x codec digest fails schema fat ⟨db, 0⟩) _ :=
      reverseIn_yields
    rcases close_of_yields db (fun _ => dropped_of_failed) hyields with
      ⟨out, ⟨⟨r, hout⟩, hkept⟩, he⟩ | ⟨stop, hstop, he⟩
    · refine .inr (.inl ⟨schema, fat, fails, r, rfl, ?_, fun s t hne => ?_⟩)
      · rw [exec, he, hout]
      · rw [exec, he]
        exact hkept s t hne
    · refine .inr (.inr ⟨?_, ?_⟩)
      · rw [exec, he]
        exact hstop
      · rw [exec, he]

theorem exec_uncommitted (call : Call) (h : Uncommitted (exec x codec digest db call).1) :
    db.step x codec digest call = db := by
  rcases exec_cases x codec digest db call with
    ⟨_, _, _, _, _, _, _, -, he, -⟩ | ⟨_, _, _, _, -, he, -⟩ | ⟨-, hsame⟩
  · rw [he] at h
    exact h.elim
  · rw [he] at h
    exact h.elim
  · exact hsame

theorem exec_migrated {call : Call} {r : Receipt}
    (h : (exec x codec digest db call).1 = .ok (.migrated r)) :
    ∃ schema fat makeMoves fails fatTable fatBytes, call = .forward schema fat makeMoves fails ∧
      Forwarded x codec digest schema fat db (db.step x codec digest call) r fatTable fatBytes := by
  rcases exec_cases x codec digest db call with
    ⟨schema, fat, makeMoves, fails, r', fatTable, fatBytes, hcall, he, hf⟩ |
    ⟨_, _, _, _, -, he, -⟩ | ⟨hquiet, -⟩
  · rw [h] at he
    cases he
    exact ⟨schema, fat, makeMoves, fails, fatTable, fatBytes, hcall, hf⟩
  · rw [h] at he
    cases he
  · rw [h] at hquiet
    exact hquiet.elim

/-- A forward call finds that the migration stands. -/
theorem forwardIn_standing {r : Receipt}
    {makeMoves : List UInt8 → Except MigrateError (List StateMove)} {tx : Tx}
    (h : Standing codec schema fat r tx.db) :
    Yields (fun stop => Failed fails stop ∨ stop = .ended (.alreadyMigrated r))
      (forwardIn x codec digest fails schema fat makeMoves tx) (fun _ => False) := by
  obtain ⟨hforward, bytes, hstored, hdecode⟩ := h
  have hfail : ∀ stop, Failed fails stop →
      Failed fails stop ∨ stop = .ended (.alreadyMigrated r) := fun _ => .inl
  refine opened_yields hfail fun tx₂ h₂ => ?_
  rw [← h₂] at hstored
  refine (readReceipt_stored hfail hstored hdecode).bind ?_
  rintro ⟨receipt, tx₃⟩ ⟨hreceipt, -⟩
  have hfilter : receipt.filter (·.direction = .forward) = some r := by
    rw [show receipt = some r from hreceipt, Option.filter_some, if_pos (decide_eq_true hforward)]
  dsimp only
  rw [hfilter]
  exact yields_error (.inr rfl)

theorem exec_standing {r : Receipt} (h : Standing codec schema fat r db)
    (makeMoves : List UInt8 → Except MigrateError (List StateMove))
    (fails : Nat → Option SqlxError) :
    db.step x codec digest (.forward schema fat makeMoves fails) = db ∧
      ((exec x codec digest db (.forward schema fat makeMoves fails)).1 =
        .ok (.alreadyMigrated r) ∨
      ∃ n e, fails n = some e ∧
        (exec x codec digest db (.forward schema fat makeMoves fails)).1 =
          .error (.database e)) := by
  unfold Db.step
  have hyields : Yields _ (forwardIn x codec digest fails schema fat makeMoves ⟨db, 0⟩) _ :=
    forwardIn_standing h
  rcases close_of_yields db (fun _ => .inl) hyields with
    ⟨_, hnever, -⟩ | ⟨stop, ⟨n, e, hn, rfl⟩ | rfl, he⟩
  · exact hnever.elim
  · exact ⟨by rw [exec, he], .inr ⟨n, e, hn, by rw [exec, he]; rfl⟩⟩
  · exact ⟨by rw [exec, he], .inl (by rw [exec, he]; rfl)⟩

/-- Only its reversal ends a migration. -/
theorem standing_step {r : Receipt} (call : Call) (hcall : ¬ call.Reverses schema fat)
    (h : Standing codec schema fat r db) :
    Standing codec schema fat r (db.step x codec digest call) := by
  obtain ⟨hforward, bytes, hstored, hdecode⟩ := id h
  rcases exec_cases x codec digest db call with
    ⟨s, t, makeMoves, fails, r', fatTable, fatBytes, rfl, he, hf⟩ |
    ⟨s, t, fails, r', rfl, he, hkept⟩ | ⟨-, hsame⟩
  · by_cases hkey : schema = s ∧ fat = t
    · obtain ⟨rfl, rfl⟩ := hkey
      rwa [(exec_standing h makeMoves fails).1]
    · exact ⟨hforward, bytes, by rw [hf.receipts schema fat hkey, hstored], hdecode⟩
  · have hkey : ¬ (schema = s ∧ fat = t) := fun h => hcall ⟨h.1.symm, h.2.symm⟩
    exact ⟨hforward, bytes, by rw [hkept schema fat hkey, hstored], hdecode⟩
  · rwa [hsame]

theorem Forwarded.standing {db' : Db} {r : Receipt} {fatTable : String} {fatBytes : List UInt8}
    (hcodec : codec.Lawful) (h : Forwarded x codec digest schema fat db db' r fatTable fatBytes) :
    Standing codec schema fat r db' := by
  obtain ⟨bytes, hstored, hvec⟩ := h.stored
  exact ⟨h.direction, bytes, hstored, hcodec.inverse r bytes hvec⟩

/-- The fat state is back as it was before the migration, and no leaf is live. -/
def Undone (digest : String → String) (schema fat : String) (db db' : Db) (r : Receipt) : Prop :=
  ∃ fatTable fatBytes, tofuStateTableIdent digest schema fat = .ok fatTable ∧
    db.rows fatTable liveRow = some (some fatBytes) ∧
      Restored digest schema db' r fatTable fatBytes

theorem exec_reverse_after {db' : Db} (hcodec : codec.Lawful) {r : Receipt} {fatTable : String}
    {fatBytes : List UInt8} (fails : Nat → Option SqlxError)
    (h : Forwarded x codec digest schema fat db db' r fatTable fatBytes) :
    ((exec x codec digest db' (.reverse schema fat fails)).1 =
        .ok (.reversed { r with direction := .reversed }) ∧
      Undone digest schema fat db (db'.step x codec digest (.reverse schema fat fails)) r) ∨
    ∃ n e, fails n = some e ∧
      exec x codec digest db' (.reverse schema fat fails) = (.error (.database e), db') := by
  unfold Db.step
  have hyields : Yields (Failed fails) (reverseIn x codec digest fails schema fat ⟨db', 0⟩) _ :=
    reverse_after_forward hcodec h
  rcases close_of_yields db' (fun _ h => h) hyields with
    ⟨out, ⟨hout, hrestored⟩, he⟩ | ⟨stop, ⟨n, e, hn, rfl⟩, he⟩
  · refine .inl ⟨by rw [exec, he, hout], fatTable, fatBytes, h.table, h.live, ?_⟩
    rw [exec, he]
    exact hrestored
  · exact .inr ⟨n, e, hn, by rw [exec, he]; rfl⟩

/-- What holds of a run of migrations and reversals, whichever of their statements fail. -/
structure AllOrNothing (x : Externals) (codec : Codec) (digest : String → String) (db : Db)
    (calls : List Call) : Prop where
  dropped : Along (Db.step x codec digest) db calls fun db call =>
    Uncommitted (exec x codec digest db call).1 → db.step x codec digest call = db
  migrated : Along (Db.step x codec digest) db calls fun db call =>
    ∀ r, (exec x codec digest db call).1 = .ok (.migrated r) →
      ∃ schema fat makeMoves fails fatTable fatBytes, call = .forward schema fat makeMoves fails ∧
        Forwarded x codec digest schema fat db (db.step x codec digest call) r fatTable fatBytes
  once : ∀ pre schema fat makeMoves fails mid makeMoves' fails' post,
    calls = pre ++ .forward schema fat makeMoves fails ::
      (mid ++ .forward schema fat makeMoves' fails' :: post) →
    (∀ call ∈ mid, ¬ call.Reverses schema fat) →
    ∀ db₀ db₁ db₂, db₀ = run (Db.step x codec digest) db pre →
      db₁ = db₀.step x codec digest (.forward schema fat makeMoves fails) →
      db₂ = run (Db.step x codec digest) db₁ mid →
      db₁ = db₀ ∨ db₂.step x codec digest (.forward schema fat makeMoves' fails') = db₂
  already : ∀ pre schema fat makeMoves fails mid makeMoves' fails' post,
    calls = pre ++ .forward schema fat makeMoves fails ::
      (mid ++ .forward schema fat makeMoves' fails' :: post) →
    (∀ call ∈ mid, ¬ call.Reverses schema fat) →
    ∀ db₀ db₁ db₂ r, db₀ = run (Db.step x codec digest) db pre →
      db₁ = db₀.step x codec digest (.forward schema fat makeMoves fails) →
      db₂ = run (Db.step x codec digest) db₁ mid →
      (exec x codec digest db₀ (.forward schema fat makeMoves fails)).1 = .ok (.migrated r) →
      (exec x codec digest db₂ (.forward schema fat makeMoves' fails')).1 =
          .ok (.alreadyMigrated r) ∨
        ∃ n e, fails' n = some e ∧
          (exec x codec digest db₂ (.forward schema fat makeMoves' fails')).1 =
            .error (.database e)
  restored : ∀ pre schema fat makeMoves fails fails' post,
    calls = pre ++ .forward schema fat makeMoves fails :: .reverse schema fat fails' :: post →
    ∀ db₀ db₁ r, db₀ = run (Db.step x codec digest) db pre →
      db₁ = db₀.step x codec digest (.forward schema fat makeMoves fails) →
      (exec x codec digest db₀ (.forward schema fat makeMoves fails)).1 = .ok (.migrated r) →
      ((exec x codec digest db₁ (.reverse schema fat fails')).1 =
          .ok (.reversed { r with direction := .reversed }) ∧
        Undone digest schema fat db₀ (db₁.step x codec digest (.reverse schema fat fails')) r) ∨
      ∃ n e, fails' n = some e ∧
        exec x codec digest db₁ (.reverse schema fat fails') = (.error (.database e), db₁)

/-- A committed migration stands until its reversal. -/
theorem standing_after {r : Receipt} (hcodec : codec.Lawful) {mid : List Call}
    {makeMoves : List UInt8 → Except MigrateError (List StateMove)}
    (hmid : ∀ call ∈ mid, ¬ call.Reverses schema fat)
    (h : (exec x codec digest db (.forward schema fat makeMoves fails)).1 = .ok (.migrated r)) :
    Standing codec schema fat r (run (Db.step x codec digest)
      (db.step x codec digest (.forward schema fat makeMoves fails)) mid) := by
  obtain ⟨s, t, _, _, fatTable, fatBytes, hcall, hf⟩ := exec_migrated h
  cases hcall
  have hstands := hf.standing hcodec
  generalize db.step x codec digest (.forward schema fat makeMoves fails) = db₁ at hstands
  induction mid generalizing db₁ with
  | nil => exact hstands
  | cons call mid ih =>
    exact ih (fun c hc => hmid c (List.mem_cons_of_mem call hc)) _
      (standing_step call (hmid call List.mem_cons_self) hstands)

theorem migrations_are_all_or_nothing (x : Externals) (codec : Codec) (digest : String → String)
    (hcodec : codec.Lawful) (db : Db) (calls : List Call) :
    AllOrNothing x codec digest db calls where
  dropped := fun _ call _ _ => exec_uncommitted call
  migrated := fun _ _ _ _ _ => exec_migrated
  once := by
    rintro pre schema fat makeMoves fails mid makeMoves' fails' post - hmid db₀ db₁ db₂ - rfl rfl
    rcases exec_cases x codec digest db₀ (.forward schema fat makeMoves fails) with
      ⟨_, _, _, _, r, _, _, -, he, -⟩ | ⟨_, _, _, _, hcall, -⟩ | ⟨-, hsame⟩
    · exact .inr (exec_standing (standing_after hcodec hmid he) makeMoves' fails').1
    · cases hcall
    · exact .inl hsame
  already := by
    rintro pre schema fat makeMoves fails mid makeMoves' fails' post -
    rintro hmid db₀ db₁ db₂ r - rfl rfl he
    exact (exec_standing (standing_after hcodec hmid he) makeMoves' fails').2
  restored := by
    rintro pre schema fat makeMoves fails fails' post - db₀ db₁ r - rfl he
    obtain ⟨_, _, _, _, fatTable, fatBytes, hcall, hf⟩ := exec_migrated he
    cases hcall
    exact exec_reverse_after hcodec fails' hf

end Runs

section Json

def decimal (n : Nat) : List Char := Nat.toDigits 10 n

theorem numberText_decimal : Json.NumberText decimal := Json.numberText_toDigits

def Direction.json : Direction → Json Nat
  | .forward => .str "forward"
  | .reversed => .str "reversed"

def LeafReceipt.json (l : LeafReceipt) : Json Nat :=
  .obj [("template", .str l.template), ("addresses", .num l.addresses),
    ("contentHash", .str l.contentHash)]

def Receipt.json (r : Receipt) : Json Nat :=
  .obj [("fatTemplate", .str r.fatTemplate), ("direction", r.direction.json),
    ("fatLineage", .str r.fatLineage), ("fatSerial", .num r.fatSerial.toNat),
    ("archiveHash", .str r.archiveHash), ("countBefore", .num r.countBefore),
    ("countAfter", .num r.countAfter), ("hashBefore", .str r.hashBefore),
    ("hashAfter", .str r.hashAfter), ("disjoint", .bool r.disjoint),
    ("leaves", .arr (r.leaves.map LeafReceipt.json))]

theorem directionJson_injective : Function.Injective Direction.json := by
  intro a b h
  cases a <;> cases b <;> simp [Direction.json] at h ⊢

theorem leafJson_injective : Function.Injective LeafReceipt.json := by
  rintro ⟨_, _, _⟩ ⟨_, _, _⟩ h
  simpa [LeafReceipt.json] using h

theorem receiptJson_injective : Function.Injective Receipt.json := by
  rintro ⟨_, _, _, _, _, _, _, _, _, _, _⟩ ⟨_, _, _, _, _, _, _, _, _, _, _⟩ h
  simpa [Receipt.json, directionJson_injective.eq_iff, UInt64.toNat_inj,
    (List.map_injective_iff.mpr leafJson_injective).eq_iff] using h

def receiptText (r : Receipt) : List UInt8 :=
  utf8 (String.ofList (Json.render decimal r.json))

theorem receiptText_injective : Function.Injective receiptText := by
  intro r s h
  have htext := String.ofList_injective (utf8_injective h)
  exact receiptJson_injective (Json.render_injective numberText_decimal htext)

open Classical in
/-- Receipts as compact JSON; no other text is read. -/
noncomputable def jsonCodec : Codec where
  toVec r := .ok (receiptText r)
  fromSlice bytes :=
    if h : ∃ r, receiptText r = bytes then .ok h.choose else .error "expected value"
  utf8Error _ := "invalid utf-8 sequence"

theorem jsonCodec_lawful : jsonCodec.Lawful where
  total := fun r => ⟨receiptText r, rfl⟩
  inverse := by
    rintro r bytes hvec
    have hr : receiptText r = bytes := Except.ok.inj hvec
    have hread : ∃ s, receiptText s = bytes := ⟨r, hr⟩
    exact (dif_pos hread).trans
      (congrArg Except.ok (receiptText_injective (hread.choose_spec.trans hr.symm)))

def Outcome.isMigrated : Outcome → Bool
  | .migrated _ => true
  | _ => false

def zones : String × Value :=
  ("resources", .arr [.obj [("mode", .str "managed"), ("type", .str "zone"), ("name", .str "a"),
    ("instances", .arr [.obj []])]])

def dnsState : Value :=
  .obj [("version", .num (.posInt 4)), ("serial", .num (.posInt 1)), ("lineage", .str "dns"), zones]

/-- What the split of this state writes. -/
def dnsLeaf : Value :=
  .obj [("version", .num (.posInt 4)), ("terraform_version", .str ""), ("serial", .num (.posInt 1)),
    ("lineage", .str "4316ac89-81fc-66fe-4316-ac8981fc66fe"), ("outputs", .obj []), zones]

def dnsTexts : Externals := knownTexts [dnsState, dnsLeaf]

def dnsDb : Db where
  rows table row :=
    if table = "\"live_dns_states\".states" ∧ row = liveRow then some (some (plainText dnsState))
    else none
  receipts _ _ := none

def dnsForward : Call :=
  .byMoves "live" "dns" [⟨"dns", "dns-a", none, ["zone.a"]⟩] fun _ => none

def dnsReverse : Call := .reverse "live" "dns" fun _ => none

theorem dns_migration_is_undone :
    ∃ r, (exec dnsTexts jsonCodec id dnsDb dnsForward).1 = .ok (.migrated r) ∧
      Undone id "live" "dns" dnsDb
        (run (Db.step dnsTexts jsonCodec id) dnsDb [dnsForward, dnsReverse]) r := by
  have hrun : (exec dnsTexts jsonCodec id dnsDb dnsForward).1.toOption.map Outcome.isMigrated =
      some true := by decide +kernel
  obtain ⟨o, ho, hmigrated⟩ := Option.map_eq_some_iff.mp hrun
  cases o with
  | migrated r =>
    have he := toOption_eq_some ho
    have hall := migrations_are_all_or_nothing dnsTexts jsonCodec id jsonCodec_lawful dnsDb
      [dnsForward, dnsReverse]
    rcases hall.restored [] "live" "dns" _ _ _ [] rfl dnsDb _ r rfl rfl he with
      ⟨-, hundone⟩ | ⟨_, _, hn, -⟩
    · exact ⟨r, he, hundone⟩
    · cases hn
  | alreadyMigrated r => cases hmigrated
  | reversed r => cases hmigrated
  | refused text => cases hmigrated

end Json

end PangeaOperator.Migrate
