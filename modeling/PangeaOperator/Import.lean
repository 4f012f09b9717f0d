import PangeaOperator.Applying

/-!
# Import targets

`controller/import.rs` and the import pre-pass of `template_controller.rs`: discover the
creates of a plan, resolve each to the id it would be imported under, run the imports and
class what failed. The text serde prints for a JSON value and its parser are parameters.
-/

namespace PangeaOperator

open Json

/-- A `BTreeMap` with string keys: its entries in the order of the keys. -/
structure StrMap (α : Type) where
  entries : List (String × α)
  sorted : (entries.map Prod.fst).Pairwise (· < ·)

namespace StrMap

variable {α : Type}

def empty : StrMap α := ⟨[], .nil⟩

def get? (m : StrMap α) (k : String) : Option α :=
  (m.entries.find? (fun e => e.1 = k)).map Prod.snd

end StrMap

/-- The value a map has for a key after these entries were inserted one after the other. -/
def lastEntry {α : Type} (entries : List (String × α)) (k : String) : Option α :=
  (entries.reverse.find? (fun e => e.1 = k)).map Prod.snd

section Text

/-- `char::is_whitespace`. -/
def isWhitespace (c : Char) : Bool :=
  let n := c.toNat
  (9 ≤ n && n ≤ 13) || n ∈ [0x20, 0x85, 0xA0, 0x1680, 0x2028, 0x2029, 0x202F, 0x205F, 0x3000] ||
    (0x2000 ≤ n && n ≤ 0x200A)

/-- `trim_matches` on a list of characters. -/
def trimMatches (p : Char → Bool) (cs : List Char) : List Char :=
  ((cs.dropWhile p).reverse.dropWhile p).reverse

/-- The text before the next closing braces, and what follows them. -/
def splitClose : List Char → Option (List Char × List Char)
  | '}' :: '}' :: rest => some ([], rest)
  | c :: cs => (splitClose cs).map (fun parts => (c :: parts.1, parts.2))
  | [] => none

/-- A character outside a token, pushed byte by byte: only ASCII comes through as it is. -/
def pushBytes (c : Char) : List Char :=
  (String.utf8EncodeChar c).map (fun b => Char.ofNat b.toNat)

def tokenName (inner : List Char) : List Char :=
  let inner := trimMatches isWhitespace inner
  trimMatches isWhitespace (if inner.head? = some '.' then inner.tail else inner)

/-- The loop of both substitutions: a token is rendered, a token that is not closed stays with
all that follows, and the first one that cannot be rendered ends it. The fuel bounds the
characters left. -/
def substituteTokens (render : String → Except String String) :
    Nat → List Char → Except String (List Char)
  | fuel + 1, '{' :: '{' :: cs =>
    match splitClose cs with
    | none => .ok ('{' :: '{' :: cs)
    | some (inner, rest) => do
      let value ← render (String.ofList (tokenName inner))
      let out ← substituteTokens render fuel rest
      .ok (value.toList ++ out)
  | fuel + 1, c :: cs => do
    let out ← substituteTokens render fuel cs
    .ok (pushBytes c ++ out)
  | _, _ => .ok []

def substitute (render : String → Except String String) (template : String) :
    Except String String :=
  (substituteTokens render template.length template.toList).map String.ofList

variable (valueText : Doc → String)

/-- A value as it goes into an id. -/
def idText : Doc → String
  | .str s => s
  | v => String.ofList (trimMatches (· = '"') (valueText v).toList)

/-- `substitute_import_id`. -/
def substituteImportId (template : String) (variables' : StrMap Doc) : Except String String :=
  substitute (fun name => match variables'.get? name with
    | some v => .ok (idText valueText v)
    | none => .error name) template

/-- `substitute_with_planned`: a planned attribute or a variable, and a null is missing. -/
def substituteWithPlanned (template : String) (planned : Doc) (variables' : StrMap Doc) :
    Except String String :=
  substitute (fun name =>
    let value := if "planned.".toList.isPrefixOf name.toList then
        planned.get? (String.ofList (trimMatches isWhitespace (name.toList.drop 8)))
      else variables'.get? name
    match value with
    | none | some .null => .error name
    | some v => .ok (idText valueText v)) template

end Text

inductive ResourceKindClass where
  | managed
  | data
  | output
  | localValue
  deriving DecidableEq, Repr

structure DerivedImportId where
  id : String
  exact : Bool
  deriving DecidableEq, Repr

/-- A planned change with what discovery reads of it. -/
structure DiscoverableChange extends PlannedChange where
  after : Option Doc
  kind : ResourceKindClass
  importId : Option DerivedImportId
  deriving DecidableEq, Repr

/-- The creates of a plan, what they would write, and the ids the executor derived for them. -/
structure Discovery where
  creates : List String
  planned : List (String × Doc)
  derived : List (String × DerivedImportId)
  deriving DecidableEq, Repr

def discoveryFromPlannedChanges (changes : List DiscoverableChange) : Discovery :=
  let creates := changes.filter (fun c => c.action = .create && c.kind = .managed)
  { creates := creates.map (fun c => c.address)
    planned := creates.map (fun c => (c.address, c.after.getD .null))
    derived := creates.filterMap (fun c => c.importId.map (fun d => (c.address, d))) }

structure ImportPolicy where
  autoOnConflict : Bool := true
  naturalIds : StrMap String := .empty

def ImportPolicy.autoOnConflictOrDefault (policy : Option ImportPolicy) : Bool :=
  (policy.map ImportPolicy.autoOnConflict).getD true

inductive ImportSource where
  | hint
  | auto
  deriving DecidableEq, Repr

structure ImportTarget where
  address : String
  id : String
  source : ImportSource
  deriving DecidableEq, Repr

inductive ImportSkip where
  | hint (address missing : String)
  | auto (address template missing : String) (serverAssigned : Bool)
  | inexact (address id : String)
  deriving DecidableEq, Repr

def resolveNaturalId (address : String) (naturalIds : StrMap String) : Option String :=
  naturalIds.get? (String.ofList (address.toList.takeWhile (· ≠ '.')))

/-- The parts of a spec that resolve an import. -/
structure ImportSpec where
  importHints : StrMap String
  importPolicy : Option ImportPolicy
  variables' : StrMap Doc

section Resolve

variable (valueText : Doc → String) (spec : ImportSpec) (d : Discovery)

/-- A create under its hint. -/
def hintTarget (address template : String) : Except ImportSkip ImportTarget :=
  match substituteImportId valueText template spec.variables' with
  | .ok id => .ok ⟨address, id, .hint⟩
  | .error missing => .error (.hint address missing)

/-- A create under the template of its type, else under the id the executor stands behind. -/
def autoTarget (address : String) : Option (Except ImportSkip ImportTarget) :=
  match spec.importPolicy.bind (fun p => resolveNaturalId address p.naturalIds) with
  | none => (lastEntry d.derived address).map (fun derived =>
      if derived.exact then .ok ⟨address, derived.id, .auto⟩
      else .error (.inexact address derived.id))
  | some template =>
    match substituteWithPlanned valueText template ((lastEntry d.planned address).getD .null)
        spec.variables' with
    | .ok id => some (.ok ⟨address, id, .auto⟩)
    | .error missing => some (.error (.auto address template missing
        (missing ∈ ["planned.id", "planned.arn", "planned.self_link"])))

def okTargets (results : List (Except ImportSkip ImportTarget)) : List ImportTarget :=
  results.filterMap Except.toOption

def errorSkips (results : List (Except ImportSkip ImportTarget)) : List ImportSkip :=
  results.filterMap (fun r => match r with
    | .ok _ => none
    | .error skip => some skip)

/-- The hints that name a create. -/
def hintResults : List (Except ImportSkip ImportTarget) :=
  (spec.importHints.entries.filter (fun e => e.1 ∈ d.creates)).map
    (fun e => hintTarget valueText spec e.1 e.2)

/-- The creates no hint resolved. -/
def autoResults : List (Except ImportSkip ImportTarget) :=
  if ImportPolicy.autoOnConflictOrDefault spec.importPolicy then
    (d.creates.filter (fun a =>
      a ∉ (okTargets (hintResults valueText spec d)).map ImportTarget.address)).filterMap
      (autoTarget valueText spec d)
  else []

def resolveImportTargets : List ImportTarget × List ImportSkip :=
  let results := hintResults valueText spec d ++ autoResults valueText spec d
  (okTargets results, errorSkips results)

end Resolve

inductive ImportEvidence where
  | unclassified
  | providerReportedAbsent
  deriving DecidableEq, Repr

/-- What an import call returns. -/
structure ImportReply extends ApplyResult where
  evidence : ImportEvidence
  deriving DecidableEq, Repr

inductive ImportFailure where
  | absent
  | ambiguous
  deriving DecidableEq, Repr

/-- The words of a provider that name a resource as missing. -/
def absentMarks : List String := ["404", "not found", "does not exist", "no resource with id"]

def classifyImportFailure (r : ImportReply) : ImportFailure :=
  match r.evidence with
  | .providerReportedAbsent => .absent
  | .unclassified =>
    if absentMarks.any (fun mark => containsText mark (r.stderr.map Char.toLower)) then .absent
    else .ambiguous

/-- `try_import`: `none` where the resource was adopted. A call that errors says nothing. -/
def tryImport (reply : Option ImportReply) : Option ImportFailure :=
  match reply with
  | none => some .ambiguous
  | some r => if r.success then none else some (classifyImportFailure r)

/-- What the pre-pass takes from outside the status: whether the credentials resolve for
discovery and again for the imports, the persisted plan (no answer where reading it fails), the
shown plan, and the answer to each import. -/
structure PrepassInput where
  spec : ImportSpec
  credentials : Bool
  planned : Option (Option (List DiscoverableChange))
  shown : Option ApplyResult
  importCredentials : Bool
  answers : Nat → ImportTarget → Option ImportReply

section Prepass

variable (valueText : Doc → String) (parseValue : String → Option Doc) (p : PrepassInput)

def PrepassInput.autoImport : Bool := ImportPolicy.autoOnConflictOrDefault p.spec.importPolicy

/-- `read_legacy_show_plan_json`. -/
def PrepassInput.shownPlan : String :=
  ((p.shown.filter (fun r => r.success && !r.stdout.isEmpty)).map ApplyResult.stdout).getD ""

/-- The changes listed in a shown plan. -/
def shownChanges (planJson : String) : List Doc :=
  match (parseValue planJson).bind (fun v => v.get? "resource_changes") with
  | some (.arr changes) => changes
  | _ => []

def shownAddress (change : Doc) : Option String :=
  match change.get? "address" with
  | some (.str address) => some address
  | _ => none

/-- A change whose actions name a create, a replacement too. -/
def shownCreate (change : Doc) : Bool :=
  match (change.get? "change").bind (fun c => c.get? "actions") with
  | some (.arr actions) => .str "create" ∈ actions
  | _ => false

def extractCreateAddressesFromPlan (planJson : String) : List String :=
  ((shownChanges parseValue planJson).filter shownCreate).filterMap shownAddress

def parsePlannedAttrs (planJson : String) : List (String × Doc) :=
  (shownChanges parseValue planJson).filterMap (fun change => do
    let address ← shownAddress change
    let after ← (change.get? "change").bind (fun c => c.get? "after")
    some (address, after))

/-- Discovery where the executor has no typed plan: the shown plan, else the recorded list. -/
def legacyDiscovery (priorDrifts : List DriftDetail) : Discovery :=
  let shown := extractCreateAddressesFromPlan parseValue p.shownPlan
  { creates := if shown.isEmpty then
        (priorDrifts.filter (fun d => d.action = "create")).map (fun d => d.address)
      else shown
    planned := if p.autoImport then parsePlannedAttrs parseValue p.shownPlan else []
    derived := [] }

/-- What the resolver is given; nothing where the pre-pass returns before it. -/
def prepassDiscovery (priorDrifts : List DriftDetail) : Option Discovery :=
  if p.spec.importHints.entries.isEmpty && !p.autoImport then none
  else if !p.credentials then none
  else p.planned.map (fun changes => match changes with
    | some changes => discoveryFromPlannedChanges changes
    | none => legacyDiscovery parseValue p priorDrifts)

/-- The targets `resolve_import_targets` returns in this pre-pass. -/
def prepassTargets (priorDrifts : List DriftDetail) : List ImportTarget :=
  match prepassDiscovery parseValue p priorDrifts with
  | none => []
  | some d => (resolveImportTargets valueText p.spec d).1

/-- Each target's address with what became of its import. The imports run concurrently; only
which addresses are in which list is read of the result. -/
def importResults (targets : List ImportTarget) : List (String × Option ImportFailure) :=
  targets.zipIdx.map (fun t => (t.1.address, tryImport (p.answers t.2 t.1)))

def collectImports (results : List (String × Option ImportFailure)) : ImportPrepass where
  imported := (results.filter (fun r => r.2 = none)).map Prod.fst
  failed := (results.filter (fun r => r.2 ≠ none)).map Prod.fst
  absent := (results.filter (fun r => r.2 = some .absent)).map Prod.fst

/-- `run_import_prepass`. Without credentials for the imports it returns as if there had been
nothing to import. -/
def runImportPrepass (priorDrifts : List DriftDetail) : ImportPrepass :=
  if p.importCredentials then
    collectImports (importResults p (prepassTargets valueText parseValue p priorDrifts))
  else {}

end Prepass

end PangeaOperator
