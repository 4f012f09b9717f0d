import Mathlib
import PangeaOperator.Lib.Run
import PangeaOperator.Lib.Yields
import PangeaOperator.MoveClaims
import PangeaOperator.StateBackend
import PangeaOperator.StateMerge

/-!
# Migrations of the live state

`backend/leaf_migration.rs`. A migration runs in one transaction: the fat state is archived and
split into the rows of its leaves, and a reversal merges them back. Whatever ends a call before its
commit, an error or an answer, drops the transaction. Any statement may fail.
-/

namespace PangeaOperator.Migrate

open SipHash

def archiveRow : String := "pre-leaf"
def liveRow : String := "default"
def revertedRow : String := "reverted"
def artifactKind : String := "leaf-migration"

def SourceError.display : SourceError → String
  | .state text => "not a terraform state v4 document: " ++ text

def MigrateError.display : MigrateError → String
  | .parse text => "the fat state does not parse: " ++ text
  | .source e => SourceError.display e
  | .noMoves => "no state moves were given"
  | .duplicateLeaf leaf => "two moves target the same leaf `" ++ leaf ++ "`"
  | .wrongSource fat named leaf =>
    "move to `" ++ leaf ++ "` names `" ++ named ++ "` as its source, not `" ++ fat ++ "`"
  | .bijection text => "bijection refused: " ++ text
  | .missingLeaf leaf => "leaf `" ++ leaf ++ "` has no state in the merge input"

/-- `verify_written` -/
def verifyWritten (x : Externals) (receipt : Receipt) (leaves : List LeafState) :
    Except MigrateError Unit := do
  let after ← leaves.foldlM (fun after l => do
    let got ← managedAddresses x l.bytes
    pure (after ++ got)) []
  let b := bijection x after after
  if ¬ b.disjoint ∨ b.after ≠ receipt.hashBefore ∨ after.length ≠ receipt.countBefore then
    .error (.bijection ("read back " ++ b.after ++ count after ++ " != recorded " ++
      receipt.hashBefore ++ " (" ++ toString receipt.countBefore ++ "), disjoint=" ++
      toString b.disjoint))
  else .ok ()

inductive Outcome where
  | migrated (receipt : Receipt)
  | alreadyMigrated (receipt : Receipt)
  | reversed (receipt : Receipt)
  | refused (text : String)
  deriving Repr, DecidableEq

def refused (e : MigrateError) : Outcome := .refused e.display

/-- The rows of the state tables, whose data may be NULL, and the stored receipts. -/
structure Db where
  rows : String → String → Option (Option (List UInt8))
  receipts : String → String → Option (List UInt8)

namespace Db

def setRow (db : Db) (table row : String) (v : Option (Option (List UInt8))) : Db :=
  { db with rows := fun t n => if t = table ∧ n = row then v else db.rows t n }

def setReceipt (db : Db) (schema fat : String) (bytes : List UInt8) : Db :=
  { db with receipts := fun s t => if s = schema ∧ t = fat then some bytes else db.receipts s t }

end Db

/-- How receipts are written as bytes, and the text of a decoding error. -/
structure Codec where
  toVec : Receipt → Except String (List UInt8)
  fromSlice : List UInt8 → Except String Receipt
  utf8Error : List UInt8 → String

/-- A transaction, with the statements it has run. -/
structure Tx where
  db : Db
  ran : Nat

/-- Why a call ends without a commit. -/
inductive Stop where
  | failed (e : BackendError)
  | ended (o : Outcome)

section Statements

variable (fails : Nat → Option SqlxError) (codec : Codec) (digest : String → String)

def query (tx : Tx) : Except Stop Tx :=
  match fails tx.ran with
  | some e => .error (.failed (.database e))
  | none => .ok { tx with ran := tx.ran + 1 }

def tableIdent (schema template : String) : Except Stop String :=
  (tofuStateTableIdent digest schema template).mapError .failed

/-- The table and its schema are created if they do not exist. -/
def ensureTable (tx : Tx) (schema template : String) : Except Stop (String × Tx) := do
  let table ← tableIdent digest schema template
  let tx ← query fails tx
  let tx ← query fails tx
  .ok (table, tx)

def readRow (tx : Tx) (table row : String) : Except Stop (Option (List UInt8) × Tx) := do
  let tx ← query fails tx
  .ok ((tx.db.rows table row).join, tx)

def checkText (bytes : List UInt8) : Except Stop Unit :=
  if (String.fromUTF8? ⟨bytes.toArray⟩).isSome then .ok ()
  else .error (.failed (.config ("state bytes are not UTF-8: " ++ codec.utf8Error bytes)))

/-- A name is unique in its table (`23505`). -/
def insertRow (tx : Tx) (table row : String) (bytes : List UInt8) : Except Stop Tx := do
  checkText codec bytes
  let tx ← query fails tx
  if (tx.db.rows table row).isSome then .error (.failed (.database (.database (some "23505"))))
  else .ok { tx with db := tx.db.setRow table row (some (some bytes)) }

def upsertRow (tx : Tx) (table row : String) (bytes : List UInt8) : Except Stop Tx := do
  checkText codec bytes
  let tx ← query fails tx
  .ok { tx with db := tx.db.setRow table row (some (some bytes)) }

def deleteRow (tx : Tx) (table row : String) : Except Stop Tx := do
  let tx ← query fails tx
  .ok { tx with db := tx.db.setRow table row none }

def ensureArtifacts (tx : Tx) : Except Stop Tx := do
  let tx ← query fails tx
  query fails tx

def readReceipt (tx : Tx) (schema fat : String) : Except Stop (Option Receipt × Tx) := do
  let tx ← query fails tx
  match tx.db.receipts schema fat with
  | none => .ok (none, tx)
  | some bytes =>
    match codec.fromSlice bytes with
    | .error _ => .error (.failed .serialization)
    | .ok r => .ok (some r, tx)

def writeReceipt (tx : Tx) (schema fat : String) (receipt : Receipt) : Except Stop Tx :=
  match codec.toVec receipt with
  | .error _ => .error (.failed .serialization)
  | .ok bytes => do
    let tx ← query fails tx
    .ok { tx with db := tx.db.setReceipt schema fat bytes }

end Statements

section Calls

variable (x : Externals) (codec : Codec) (digest : String → String)
  (fails : Nat → Option SqlxError)

def orRefuse {α : Type} : Except MigrateError α → Except Stop α
  | .ok a => .ok a
  | .error e => .error (.ended (refused e))

/-- The rows of the leaves, none of which may be there yet. -/
def createLeaves (schema : String) : List LeafState → Tx → Except Stop Tx
  | [], tx => .ok tx
  | leaf :: rest, tx => do
    let (table, tx) ← ensureTable fails digest tx schema leaf.template
    let (row, tx) ← readRow fails tx table liveRow
    if row.isSome then
      .error (.ended (.refused
        ("leaf `" ++ leaf.template ++ "` already has a `" ++ liveRow ++ "` state row")))
    else do
      let tx ← insertRow fails codec tx table liveRow leaf.bytes
      createLeaves schema rest tx

def readBack (schema : String) : List LeafState → Tx → Except Stop (List LeafState × Tx)
  | [], tx => .ok ([], tx)
  | leaf :: rest, tx => do
    let table ← tableIdent digest schema leaf.template
    let (row, tx) ← readRow fails tx table liveRow
    let (leaves, tx) ← readBack schema rest tx
    .ok (⟨leaf.template, row.getD []⟩ :: leaves, tx)

/-- `forward_with` up to its commit. -/
def forwardIn (schema fat : String) (makeMoves : List UInt8 → Except MigrateError (List StateMove))
    (tx : Tx) : Except Stop (Outcome × Tx) := do
  let tx ← query fails tx
  let tx ← ensureArtifacts fails tx
  let (receipt, tx) ← readReceipt fails codec tx schema fat
  match receipt.filter (·.direction = .forward) with
  | some r => .error (.ended (.alreadyMigrated r))
  | none => do
    let fatTable ← tableIdent digest schema fat
    let (row, tx) ← readRow fails tx fatTable liveRow
    match row with
    | none => .error (.ended (.refused ("`" ++ fat ++ "` has no `" ++ liveRow ++ "` state row")))
    | some fatBytes => do
      let moves ← orRefuse (makeMoves fatBytes)
      let s ← orRefuse (split x fat fatBytes moves)
      let tx ← upsertRow fails codec tx fatTable archiveRow fatBytes
      let tx ← createLeaves codec digest fails schema s.leaves tx
      let (leaves, tx) ← readBack digest fails schema s.leaves tx
      orRefuse (verifyWritten x s.receipt leaves)
      let (row, tx) ← readRow fails tx fatTable liveRow
      if row ≠ some fatBytes then
        .error (.ended (.refused ("`" ++ fat ++ "` state moved during the migration")))
      else do
        let tx ← writeReceipt fails codec tx schema fat s.receipt
        .ok (.migrated s.receipt, tx)

def readLeaves (schema : String) : List LeafReceipt → Tx → Except Stop (List LeafState × Tx)
  | [], tx => .ok ([], tx)
  | l :: rest, tx => do
    let table ← tableIdent digest schema l.template
    let (row, tx) ← readRow fails tx table liveRow
    match row with
    | none => .error (.ended (refused (.missingLeaf l.template)))
    | some bytes => do
      let (leaves, tx) ← readLeaves schema rest tx
      .ok (⟨l.template, bytes⟩ :: leaves, tx)

def retireLeaves (schema : String) : List LeafState → Tx → Except Stop Tx
  | [], tx => .ok tx
  | leaf :: rest, tx => do
    let table ← tableIdent digest schema leaf.template
    let tx ← upsertRow fails codec tx table revertedRow leaf.bytes
    let tx ← deleteRow fails tx table liveRow
    retireLeaves schema rest tx

/-- `reverse` up to its commit. -/
def reverseIn (schema fat : String) (tx : Tx) : Except Stop (Outcome × Tx) := do
  let tx ← query fails tx
  let tx ← ensureArtifacts fails tx
  let (receipt, tx) ← readReceipt fails codec tx schema fat
  match receipt with
  | none =>
    .error (.ended (.refused ("`" ++ fat ++ "` has no " ++ artifactKind ++ " artifact")))
  | some receipt =>
    if receipt.direction ≠ .forward then
      .error (.ended (.refused ("`" ++ fat ++ "` is already reversed")))
    else do
      let fatTable ← tableIdent digest schema fat
      let (row, tx) ← readRow fails tx fatTable archiveRow
      match row with
      | none =>
        .error (.ended (.refused ("`" ++ fat ++ "` has no `" ++ archiveRow ++ "` archive row")))
      | some archive => do
        let (leaves, tx) ← readLeaves digest fails schema receipt.leaves tx
        let merged ← orRefuse (merge x archive receipt leaves)
        let tx ← upsertRow fails codec tx fatTable liveRow merged
        let tx ← retireLeaves codec digest fails schema leaves tx
        let reversed := { receipt with direction := .reversed }
        let tx ← writeReceipt fails codec tx schema fat reversed
        .ok (.reversed reversed, tx)

/-- The end of a call: without a commit the transaction is dropped. -/
def close (db : Db) : Except Stop (Outcome × Tx) → Except BackendError Outcome × Db
  | .error (.failed e) => (.error e, db)
  | .error (.ended o) => (.ok o, db)
  | .ok (o, tx) =>
    match fails tx.ran with
    | some e => (.error (.database e), db)
    | none => (.ok o, tx.db)

end Calls

/-- A call for a template of a schema, with the statements of it that fail. -/
inductive Call where
  | forward (schema fat : String) (makeMoves : List UInt8 → Except MigrateError (List StateMove))
      (fails : Nat → Option SqlxError)
  | reverse (schema fat : String) (fails : Nat → Option SqlxError)

/-- `forward` and `forward_by_key`; `forward_by_claims` differs in the moves it makes. -/
def Call.byMoves (schema fat : String) (moves : List StateMove)
    (fails : Nat → Option SqlxError) : Call := .forward schema fat (fun _ => .ok moves) fails

def Call.byKey (x : Externals) (schema fat pangeaNamespace : String)
    (leaves : List (String × String)) (fails : Nat → Option SqlxError) : Call :=
  .forward schema fat (fun bytes => movesByKey x fat (some pangeaNamespace) bytes leaves) fails

def exec (x : Externals) (codec : Codec) (digest : String → String) (db : Db) :
    Call → Except BackendError Outcome × Db
  | .forward schema fat makeMoves fails =>
    close fails db (forwardIn x codec digest fails schema fat makeMoves ⟨db, 0⟩)
  | .reverse schema fat fails =>
    close fails db (reverseIn x codec digest fails schema fat ⟨db, 0⟩)

def Db.step (x : Externals) (codec : Codec) (digest : String → String) (db : Db) (call : Call) :
    Db := (exec x codec digest db call).2

end PangeaOperator.Migrate
