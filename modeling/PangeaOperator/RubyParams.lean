import Mathlib.Data.List.Basic
import Mathlib.Data.List.Nodup
import PangeaOperator.Lib.Yields

/-!
# Binding arguments to parameters

`bind_params` of `lava-ruby/src/call.rs`: the arity check of methods and lambdas, the
spreading of a single array in blocks, and the loops that hand out positional and keyword
arguments. A bound default is not evaluated, nested patterns are not taken apart.
-/

namespace PangeaOperator.LavaRuby

/-- What is asked of a value. -/
structure Shape (V : Type) where
  array : V → Option (List V)
  hash : List (V × V) → V
  symbol : V → Option String

/-- A hash of keyword arguments has each key once. -/
structure Kwargs {V : Type} (R : Shape V) where
  entries : List (V × V)
  distinct : (entries.filterMap (R.symbol ·.1)).Nodup

structure Args {V : Type} (R : Shape V) where
  pos : List V
  kw : Option (Kwargs R)

inductive Param where
  | arg (name : String)
  | optarg (name : String)
  | restarg (name : Option String)
  | mlhs
  | procarg0 (names : Nat)
  | kwarg (name : String)
  | kwoptarg (name : String)
  | kwrestarg (name : Option String)
  | kwnilarg
  | forward
  | blockarg (name : Option String)
  | shadow (name : String)
  deriving DecidableEq, Repr

namespace Param

def isRequired : Param → Bool
  | arg _ | mlhs | procarg0 _ => true
  | _ => false

def isOptional : Param → Bool
  | optarg _ => true
  | _ => false

def isRest : Param → Bool
  | restarg _ => true
  | _ => false

def isForward : Param → Bool
  | forward => true
  | _ => false

def isPositional (p : Param) : Bool := p.isRequired || p.isOptional || p.isRest

def isKeyword : Param → Bool
  | kwarg _ | kwoptarg _ | kwrestarg _ | kwnilarg => true
  | _ => false

def isKwrest : Param → Bool
  | kwrestarg _ => true
  | _ => false

end Param

/-- What a positional parameter is given. -/
inductive Slot (V : Type) where
  | value (v : V)
  | missing
  | rest (vs : List V)
  | default
  deriving DecidableEq, Repr

structure Bound (V : Type) where
  positional : List (Param × Slot V)
  forwarded : List V
  forwardedKw : Option (List (V × V))
  /-- The value of each keyword, or its default. -/
  keywords : List (String × Option V)
  collected : Option (List (V × V))

variable {V : Type} (R : Shape V)

/-! ## Positional arguments -/

def count (p : Param → Bool) (params : List Param) : Nat := params.countP p

def hasRest (params : List Param) : Bool := params.any (·.isForward) || params.any (·.isRest)

/-- Without a keyword parameter the keywords are one more argument. -/
def positionals (params : List Param) (a : Args R) (mname : String) : List V :=
  if params.any (·.isKeyword) || params.any (·.isForward) then a.pos
  else
    match a.kw with
    | some kw =>
      if kw.entries.length > 0 || mname == "block" then a.pos ++ [R.hash kw.entries] else a.pos
    | none => a.pos

/-- A block with several parameters takes a single array apart. -/
def spread (params : List Param) (pos : List V) : List V :=
  let positional := params.filter (·.isPositional)
  let procargMulti := match positional.head? with
    | some (.procarg0 names) => decide (names > 1)
    | _ => false
  match pos with
  | [v] =>
    if positional.length > 1 && !procargMulti then (R.array v).getD pos else pos
  | _ => pos

def arityError (params : List Param) (given : Nat) : String :=
  let req := count Param.isRequired params
  let opt := count Param.isOptional params
  let expected :=
    if hasRest params then toString req ++ "+"
    else if opt > 0 then toString req ++ ".." ++ toString (req + opt)
    else toString req
  "wrong number of arguments (given " ++ toString given ++ ", expected " ++ expected ++ ")"

def arityOk (params : List Param) (given : Nat) : Bool :=
  !(given < count Param.isRequired params || (!hasRest params &&
    given > count Param.isRequired params + count Param.isOptional params))

def slotAt (pos : List V) (i : Nat) : Slot V :=
  match pos[i]? with
  | some v => .value v
  | none => .missing

/-- The loop over the positional parameters, with the next argument, the optional parameters
filled, and whether a rest parameter has been seen. -/
def bindLoop (strict : Bool) (pos : List V) (availOpt restLen : Nat) :
    List Param → Nat → Nat → Bool → List (Param × Slot V)
  | [], _, _, _ => []
  | p :: ps, i, optUsed, seen =>
    match p with
    | .arg _ | .mlhs | .procarg0 _ =>
      (p, slotAt pos i) :: bindLoop strict pos availOpt restLen ps (i + 1) optUsed seen
    | .optarg _ =>
      if optUsed < availOpt then
        (p, slotAt pos i) :: bindLoop strict pos availOpt restLen ps (i + 1) (optUsed + 1) seen
      else (p, .default) :: bindLoop strict pos availOpt restLen ps i optUsed seen
    | .restarg _ =>
      let take := if strict || !seen then restLen else 0
      let stop := min (i + take) pos.length
      (p, .rest ((pos.drop i).take (stop - i))) ::
        bindLoop strict pos availOpt restLen ps stop optUsed true
    | _ => bindLoop strict pos availOpt restLen ps i optUsed seen

/-! ## Keywords -/

def lookupKw (name : String) (kw : List (V × V)) : Option V :=
  (kw.find? (fun e => R.symbol e.1 == some name)).map (·.2)

/-- The keyword parameters in order; a missing one ends the call. -/
def bindKeywords (kw : List (V × V)) : List Param → Except String (List (String × Option V))
  | [] => .ok []
  | .kwarg name :: ps =>
    match lookupKw R name kw with
    | some v => do
      let rest ← bindKeywords kw ps
      pure ((name, some v) :: rest)
    | none => .error ("missing keyword: :" ++ name)
  | .kwoptarg name :: ps => do
    let rest ← bindKeywords kw ps
    pure ((name, lookupKw R name kw) :: rest)
  | _ :: ps => bindKeywords kw ps

/-- The keywords of the call that no parameter takes. -/
def unused (keywords : List (String × Option V)) (kw : List (V × V)) : List (V × V) :=
  kw.filter (fun e =>
    match R.symbol e.1 with
    | some s => !(keywords.any (fun k => k.1 == s && k.2.isSome))
    | none => true)

/-- What a `**` parameter collects; without one, an unknown symbol ends a strict call. -/
def collect (strict : Bool) (params : List Param) (keywords : List (String × Option V))
    (kw : List (V × V)) : Except String (Option (List (V × V))) :=
  if params.any (·.isKwrest) then .ok (some (unused R keywords kw))
  else if params.any (·.isKeyword) && strict then
    match (unused R keywords kw).findSome? (fun e => R.symbol e.1) with
    | some s => .error ("unknown keyword: :" ++ s)
    | none => .ok none
  else .ok none

def bindParams (params : Option (List Param)) (a : Args R) (strict : Bool) (mname : String) :
    Except String (Bound V) :=
  match params with
  | none =>
    if strict && !a.pos.isEmpty && mname != "block" then
      .error ("wrong number of arguments (given " ++ toString a.pos.length ++ ", expected 0)")
    else .ok ⟨[], [], none, [], none⟩
  | some params => do
    let given := positionals R params a mname
    let pos := if strict then given else spread R params given
    if strict && !arityOk params pos.length then
      throw (arityError params pos.length)
    let req := count Param.isRequired params
    let availOpt := min (pos.length - req) (count Param.isOptional params)
    let forwarded := if params.any (·.isForward) then pos.drop (req + availOpt) else []
    let positional := bindLoop strict pos availOpt (pos.length - (req + availOpt)) params 0 0 false
    let kw := if params.any (·.isKeyword) || params.any (·.isForward)
      then ((a.kw.map (·.entries)).getD []) else []
    let keywords ← bindKeywords R kw params
    let collected ← collect R strict params keywords kw
    let forwardedKw := if params.any (·.isForward) then a.kw.map (·.entries) else none
    pure ⟨positional, forwarded, forwardedKw, keywords, collected⟩

/-! ## No argument is lost -/

def Slot.contents : Slot V → List V
  | value v => [v]
  | missing => []
  | rest vs => vs
  | default => []

def contents (slots : List (Param × Slot V)) : List V := slots.flatMap (·.2.contents)

section Loop

variable {strict : Bool} {pos : List V} {availOpt restLen : Nat}

theorem count_cons (f : Param → Bool) (p : Param) (params : List Param) :
    count f (p :: params) = count f params + if f p then 1 else 0 := List.countP_cons

@[simp] theorem contents_nil : contents ([] : List (Param × Slot V)) = [] := rfl

end Loop

end PangeaOperator.LavaRuby
