import PangeaOperator.Import

/-!
# Conflict rounds

`controller/conflict.rs`: read the conflicts off a failed apply, adopt what the policy says
by import, and apply again, for a bounded number of rounds. A run keeps the calls it makes
in order, with the action set each bare apply was judged on.
-/

namespace PangeaOperator

open Json Applying

inductive ConflictKind where
  | alreadyExists
  | alreadyProtected
  | other
  deriving DecidableEq, Repr

inductive ConflictResolution where
  | adopt
  | skip
  | fail
  deriving DecidableEq, Repr

structure ConflictRule where
  resourceTypes : List String
  kinds : List ConflictKind
  resolution : ConflictResolution
  deriving DecidableEq, Repr

structure ConflictResolutionPolicy where
  enabled : Option Bool := none
  rules : List ConflictRule := []
  defaultResolution : Option ConflictResolution := none
  maxRounds : Option Nat := none
  deriving DecidableEq, Repr

namespace ConflictResolutionPolicy

def bundledDefault : ConflictResolutionPolicy where
  rules := [⟨[], [.alreadyExists, .alreadyProtected], .adopt⟩]
  defaultResolution := some .fail
  maxRounds := some 3

/-- The first rule that matches, else the default. -/
def resolutionFor (policy : ConflictResolutionPolicy) (resourceType : String)
    (kind : ConflictKind) : ConflictResolution :=
  match policy.rules.find? (fun rule =>
      (rule.resourceTypes.isEmpty || resourceType ∈ rule.resourceTypes) &&
        (rule.kinds.isEmpty || kind ∈ rule.kinds)) with
  | some rule => rule.resolution
  | none => policy.defaultResolution.getD .fail

def rounds (policy : ConflictResolutionPolicy) : Nat := min (max (policy.maxRounds.getD 3) 1) 10

end ConflictResolutionPolicy

namespace Conflict

/-- `str::lines`: a line feed ends a line, with a carriage return before it; what follows the last
one is a line if it is not empty. -/
def lines : List Char → List Char → List (List Char)
  | [], [] => []
  | line, [] => [line.reverse]
  | line, '\n' :: cs =>
    (if line.head? = some '\r' then line.tail else line).reverse :: lines [] cs
  | line, c :: cs => lines (c :: line) cs

def trimStart (cs : List Char) : List Char := cs.dropWhile isWhitespace

/-- Without the box that OpenTofu draws around a diagnostic. -/
def stripDiagFrame (line : List Char) : List Char :=
  let l := trimStart line
  trimStart (if l.head?.any (fun c => c ∈ ['│', '╷', '╵']) then l.tail else l)

def classifyKind (errorText : String) : ConflictKind :=
  let t := errorText.map Char.toLower
  if containsText "already protected" t || containsText "protection already exists" t then
    .alreadyProtected
  else if containsText "already exists" t || containsText "name already" t ||
      containsText "already been taken" t || containsText "must be unique" t then .alreadyExists
  else .other

/-- `trim_start_matches` of a text, as often as it stands there. -/
def dropPrefixes (pre : List Char) : Nat → List Char → List Char
  | fuel + 1, cs => if pre.isPrefixOf cs then dropPrefixes pre fuel (cs.drop pre.length) else cs
  | 0, cs => cs

/-- The address of a `with` line. -/
def withAddress (line : List Char) : List Char :=
  let rest := dropPrefixes "with ".toList line.length line
  trimMatches isWhitespace (rest.reverse.dropWhile (· = ',')).reverse

/-- The scan of the diagnostics: the text of the block that is open, if any. -/
def scanBlocks : Option (List Char) → List (List Char) → List (String × String)
  | _, [] => []
  | current, line :: rest =>
    if "Error:".toList.isPrefixOf line then scanBlocks (some line) rest
    else match current with
      | none => scanBlocks none rest
      | some text =>
        if "with ".toList.isPrefixOf line then
          let address := withAddress line
          if address.isEmpty then scanBlocks none rest
          else (String.ofList address, String.ofList text) :: scanBlocks none rest
        else scanBlocks (some (text ++ ' ' :: line)) rest

/-- `apply_error_blocks`. -/
def applyErrorBlocks (output : String) : List (String × String) :=
  scanBlocks none ((lines [] output.toList).map stripDiagFrame)

/-- `classify_apply_conflicts`: the same scan with the kind of each block. -/
def classifyApplyConflicts (output : String) : List (String × ConflictKind) :=
  (applyErrorBlocks output).map (fun b => (b.1, classifyKind b.2))

/-- `combined_output` of this file, without the mark between the two streams. -/
def combinedOutput (result : ApplyResult) : String :=
  if result.stdout.isEmpty then result.stderr
  else if result.stderr.isEmpty then result.stdout
  else s!"{result.stdout}\n{result.stderr}"

def resourceTypeOf (address : String) : String :=
  String.ofList (address.toList.takeWhile (· ≠ '.'))

end Conflict

/-- The calls of an apply section that change state, the action sets it judges bare applies on,
and its refusals. -/
inductive ApplyEvent where
  | importCall (address id : String)
  | freshActionSet (actions : List DriftDetail)
  | apply (call : ApplyCall)
  | block (message : String)
  deriving DecidableEq, Repr

/-- What one round is answered: the credentials, shown plan and rendered configuration that
attributes are gathered from, the imports in the order they are made, the reads before the
apply, and the apply. -/
structure RoundAnswers where
  credentials : Bool
  shown : Option ApplyResult
  mainTf : Option String
  imports : Nat → Option ImportReply
  reads : ActionSetReads
  applied : Option ApplyResult

structure ConflictInput where
  policy : Option ConflictResolutionPolicy
  spec : ImportSpec
  executor : Bool
  rounds : Nat → RoundAnswers

structure ConflictState where
  result : ApplyResult
  imported : List String := []
  tried : List String := []
  roundsRun : Nat := 0
  blocked : Option String := none
  events : List ApplyEvent := []
  deriving DecidableEq, Repr

def postImportMessage (address action : String) : String :=
  "Applying refused: destroyProtection is enabled and the post-import re-apply's freshly " ++
    s!"recomputed plan contains a destructive {action} action on {address}. A replace is a " ++
    "delete-then-recreate, so it is blocked under destroy protection (approved or not). Set " ++
    "spec.destroyProtection=false first if this destruction is intended, then re-approve. " ++
    "Parking at Failed."

section Rounds

variable (valueText : Doc → String) (parseValue : String → Option Doc)
  (fromJson : String → Option Plan) (destroyProtection : Bool) (c : ConflictInput)

namespace ConflictInput

def effectivePolicy : ConflictResolutionPolicy := c.policy.getD .bundledDefault

def isEnabled : Bool :=
  c.effectivePolicy.enabled.getD (ImportPolicy.autoOnConflictOrDefault c.spec.importPolicy)

end ConflictInput

/-- The attributes of every resource of a rendered configuration; a block may be a list of one. -/
def configAttrsFromMainTf (json : String) : List (String × Doc) :=
  match ((parseValue json).bind (fun v => v.get? "resource")).bind asObject with
  | none => []
  | some types => types.flatMap (fun t => ((asObject t.2).getD []).map (fun label =>
      (s!"{t.1}.{label.1}", match label.2 with
        | .arr blocks => blocks.head?.getD .null
        | block => block)))

def gatherAttrs (a : RoundAnswers) : List (String × Doc) :=
  let shown := if a.credentials then
      ((a.shown.filter (fun r => r.success && !r.stdout.isEmpty)).map ApplyResult.stdout).getD ""
    else ""
  let planned := if shown.isEmpty then [] else parsePlannedAttrs parseValue shown
  if planned.isEmpty then (a.mainTf.map (configAttrsFromMainTf parseValue)).getD []
  else planned

/-- The id a conflicting address is imported under, if one can be derived. -/
def conflictImportId (attrs : List (String × Doc)) (address : String) : Option String := do
  let template ← resolveNaturalId address
    ((c.spec.importPolicy.map ImportPolicy.naturalIds).getD .empty)
  (substituteWithPlanned valueText template ((lastEntry attrs address).getD .null)
    c.spec.variables').toOption

/-- One wanted address: the state, and how many this round has imported. -/
def adoptConflict (attrs : List (String × Doc)) (imports : Nat → Option ImportReply)
    (acc : ConflictState × Nat) (want : (String × ConflictKind) × Nat) : ConflictState × Nat :=
  let address := want.1.1
  let st := { acc.1 with tried := address :: acc.1.tried }
  match conflictImportId valueText c attrs address with
  | none => (st, acc.2)
  | some id =>
    let st := { st with events := st.events ++ [.importCall address id] }
    if (imports want.2).any (fun r => r.success) then
      ({ st with imported := st.imported ++ [address] }, acc.2 + 1)
    else (st, acc.2)

/-- The apply of a round, behind the gate; whether another round may follow. -/
def reapply (a : RoundAnswers) (st : ConflictState) : ConflictState × Bool :=
  let fresh := freshActionSetBeforeBareApply fromJson a.reads
  let st := if destroyProtection then
      { st with events := st.events ++ [.freshActionSet fresh] }
    else st
  match evaluateDestroyProtectionGate destroyProtection fresh with
  | .blockedByProtectedDestruction address action =>
    let message := postImportMessage address action
    ({ st with blocked := some message, events := st.events ++ [.block message] }, false)
  | .proceed =>
    let st := { st with events := st.events ++ [.apply .bare] }
    match a.applied with
    | none => (st, false)
    | some r => ({ st with result := r }, !r.success)

/-- The conflicts that the policy adopts and that were not tried before. -/
def wantedConflicts (st : ConflictState) : List (String × ConflictKind) :=
  (Conflict.classifyApplyConflicts (Conflict.combinedOutput st.result)).filter (fun conflict =>
    conflict.1 ∉ st.tried && c.effectivePolicy.resolutionFor (Conflict.resourceTypeOf conflict.1)
      conflict.2 = .adopt)

/-- The imports of a round. -/
def adoptConflicts (round : Nat) (st : ConflictState) : ConflictState × Nat :=
  (wantedConflicts c st).zipIdx.foldl
    (adoptConflict valueText c (gatherAttrs parseValue (c.rounds round)) (c.rounds round).imports)
    ({ st with roundsRun := round + 1 }, 0)

def conflictRound (round : Nat) (st : ConflictState) : ConflictState × Bool :=
  if (wantedConflicts c st).isEmpty then (st, false)
  else
    let adopted := adoptConflicts valueText parseValue c round st
    if adopted.2 = 0 then (adopted.1, false)
    else reapply fromJson destroyProtection (c.rounds round) adopted.1

/-- The loop, with the rounds that are left. -/
def conflictRounds : Nat → Nat → ConflictState → ConflictState
  | 0, _, st => st
  | left + 1, round, st =>
    let next := conflictRound valueText parseValue fromJson destroyProtection c round st
    if next.2 then conflictRounds left (round + 1) next.1 else next.1

/-- `resolve_conflicts_post_apply`: no answer where no executor resolves, nothing where the rounds
are off. -/
def resolveConflictsPostApply (failed : ApplyResult) : Option (Option ConflictState) :=
  if !c.isEnabled then some none
  else if !c.executor then none
  else some (some (conflictRounds valueText parseValue fromJson destroyProtection c
    c.effectivePolicy.rounds 0 { result := failed }))

end Rounds

end PangeaOperator
