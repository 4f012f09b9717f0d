import PangeaOperator.Lib.Signals
import PangeaOperator.RubySyntax

/-!
# The evaluator

`eval` and what it is made of in `lava-ruby/src/eval.rs`: every construct, with operands, arguments
and targets of assignments.
-/

namespace PangeaOperator.RubyEval

variable {V M Op : Type}

/-! ## Computations -/

/-- What the evaluator is called for: a node in a frame and a scope, and the calls. -/
inductive Task (V M Op : Type) where
  | node (n : Node V Op) (fr : Frame V) (sc : Nat)
  | callProc (p : Nat) (a : CallArgs V)
  | callProcIn (p : Proc V Op) (a : CallArgs V) (fr : Frame V) (lambda : Bool)
  | call (recv : V) (name : String) (a : CallArgs V) (fcall : Bool) (caller : Option (Frame V))
  | invoke (m : Meth V Op) (owner recv : V) (name : String) (a : CallArgs V)
      (caller : Option (Frame V))
  | callSuper (fr : Frame V) (a : CallArgs V)
  | loop (kernel : Bool) (p : Nat)
  | loadFile (file : String)
  | evalString (fr : Frame V) (sc : Nat)

abbrev Eval (V M Op α : Type) := Comp (Store V M Op) (Ctrl V) α

section Evaluator

variable (R : Ruby V M Op)

/-- What only the memory is needed for. -/
def alloc {α : Type} (f : M → α × M) : Eval V M Op α := do
  let s ← Comp.get
  Comp.modify (fun t => { t with mem := (f s.mem).2 })
  pure (f s.mem).1

def setMem (m : M) : Eval V M Op Unit := Comp.modify (fun s => { s with mem := m })

def error (cls message : String) {α : Type} : Eval V M Op α := do
  let e ← alloc (fun m => R.err m cls message)
  Comp.signal (.raise e)

def freshId : Eval V M Op Nat := do
  let s ← Comp.get
  Comp.modify (fun s => { s with nextId := s.nextId + 1 })
  pure s.nextId

def newScope (parent : Option Nat) : Eval V M Op Nat := do
  let s ← Comp.get
  Comp.modify (fun s => (s.newScope parent).2)
  pure (s.newScope parent).1

def addProc (p : Proc V Op) : Eval V M Op Nat := do
  let s ← Comp.get
  Comp.modify (fun s => (s.addProc p).2)
  pure (s.addProc p).1

def setVar (sc : Nat) (name : String) (v : V) : Eval V M Op Unit :=
  Comp.modify (fun s => s.set_ sc name v)

def declare (sc : Nat) (name : String) (v : V) : Eval V M Op Unit :=
  Comp.modify (fun s => s.declare sc name v)

def define (target : V) (name : String) (m : Meth V Op) : Eval V M Op Unit :=
  Comp.modify (fun s => s.define target name m)

/-- The next text, as it is read and parsed. -/
def nextText : Eval V M Op (Text V Op) := do
  let s ← Comp.get
  match s.texts with
  | [] => Comp.diverge
  | t :: ts => do
    Comp.modify (fun s => { s with texts := ts })
    pure t

/-- A proc for a symbol, or for a method of the receiver; neither has parameters of its own. -/
def ownProc (recv : Option V) (name : String) (fr : Frame V) : Eval V M Op Nat := do
  let sc ← newScope none
  let id ← freshId
  match recv with
  | none => addProc ⟨.symToProc name, sc, fr, false, id⟩
  | some r => addProc ⟨.method r name, sc, fr, true, id⟩

def withProc (p : Nat) (f : Proc V Op → Eval V M Op V) : Eval V M Op V := do
  let s ← Comp.get
  match s.procs[p]? with
  | some p => f p
  | none => error R "TypeError" "not a proc"

/-- The top frame of the interpreter. -/
def topFrame : Frame V := ⟨R.main, R.object, [R.object], none, none, [], 0, "main"⟩

variable (ev : Task V M Op → Eval V M Op V)

/-! ## Builtins -/

/-- What a definition of a builtin is stored as. -/
def NativeDef.meth (s : Store V M Op) : NativeDef → Meth V Op
  | .proc p => .proc p
  | .native name => .native name
  | .copy i => ((s.defs[i]?).map (·.2.2)).getD .undefined
  | .undefined => .undefined

/-- A builtin ends with a value or raises an exception. -/
def raiseOr {α : Type} : Except V α → Eval V M Op α
  | .ok a => pure a
  | .error e => Comp.signal (.raise e)

def runNative {α : Type} : Native V M Op α → Eval V M Op α
  | .done r m => do
    setMem m
    raiseOr r
  | .callProc p a m undo next => do
    setMem m
    match ← Comp.attempt (ev (.callProc p a)) with
    | .ok v => do
      let s ← Comp.get
      runNative (next v s.world)
    | .error e => do
      Comp.modify (fun s => { s with mem := undo s.mem })
      Comp.signal e
  | .callProcSelf p self_ target cref args m next => do
    setMem m
    let v ← withProc R p (fun p => ev (.callProcIn p (.of args)
      { p.frame with selfV := self_, defTarget := target, cref := cref p.frame.cref } false))
    let s ← Comp.get
    runNative (next v s.world)
  | .call recv name a fcall caller m next => do
    setMem m
    let v ← ev (.call recv name a fcall caller)
    let s ← Comp.get
    runNative (next v s.world)
  | .invoke i owner recv name a m next => do
    setMem m
    let s ← Comp.get
    let v ← ev (.invoke ((NativeDef.copy i).meth s) owner recv name a none)
    let s ← Comp.get
    runNative (next v s.world)
  | .newProc recv name m next => do
    setMem m
    let p ← ownProc recv name (topFrame R)
    let s ← Comp.get
    runNative (next p s.world)
  | .define target name d m next => do
    setMem m
    let s ← Comp.get
    define target name (d.meth s)
    let s ← Comp.get
    runNative (next s.world)
  | .remove target name m next => do
    setMem m
    Comp.modify (fun s => s.remove R.sameModule target name)
    let s ← Comp.get
    runNative (next s.world)
  | .loadFile file m next => do
    setMem m
    let v ← ev (.loadFile file)
    let s ← Comp.get
    runNative (next v s.world)
  | .evalString self_ target cref file m next => do
    setMem m
    let id ← freshId
    let sc ← newScope none
    let v ← ev (.evalString ⟨self_, target, cref, none, none, [], id, file⟩ sc)
    let s ← Comp.get
    runNative (next v s.world)

/-- A builtin, in the world as it is. -/
def builtin {α : Type} (f : World V M Op → Native V M Op α) : Eval V M Op α := do
  let s ← Comp.get
  runNative R ev (f s.world)

/-- A call that the evaluator makes for itself. -/
def callV (recv : V) (name : String) (args : List V) : Eval V M Op V :=
  ev (.call recv name (.of args) true none)

def findMethod (recv : V) (name : String) : Eval V M Op (Option (Meth V Op × V)) := do
  let s ← Comp.get
  pure ((R.find s.world recv name).bind
    (fun f => (s.defs[f.1]?).map (fun d => (d.2.2, f.2))))

def responds (recv : V) (name : String) : Eval V M Op Bool := do
  let s ← Comp.get
  pure ((R.find s.world recv name).isSome || R.nativeResponds s.mem recv name)

/-! ## Operands and arguments -/

def evalOpt (n : Option (Node V Op)) (fr : Frame V) (sc : Nat) : Eval V M Op V :=
  match n with
  | some n => ev (.node n fr sc)
  | none => pure R.nil

/-- A part that may be missing. -/
def evalPart (n : Option (Node V Op)) (fr : Frame V) (sc : Nat) : Eval V M Op (Option V) :=
  match n with
  | some n => do
    let v ← ev (.node n fr sc)
    pure (some v)
  | none => pure none

def evalSeq (last : V) : List (Node V Op) → Frame V → Nat → Eval V M Op V
  | [], _, _ => pure last
  | n :: ns, fr, sc => do
    let v ← ev (.node n fr sc)
    evalSeq v ns fr sc

/-- An element of an array; a splat gives several values. -/
def evalElem (n : Node V Op) (fr : Frame V) (sc : Nat) : Eval V M Op (List V) :=
  match n with
  | .splat e => do
    let v ← evalOpt R ev e fr sc
    builtin R ev (R.splatList v)
  | n => do
    let v ← ev (.node n fr sc)
    pure [v]

def evalElems : List (Node V Op) → Frame V → Nat → Eval V M Op (List V)
  | [], _, _ => pure []
  | n :: ns, fr, sc => do
    let vs ← evalElem R ev n fr sc
    let rest ← evalElems ns fr sc
    pure (vs ++ rest)

def retValue (args : List (Node V Op)) (fr : Frame V) (sc : Nat) : Eval V M Op V :=
  let array (ns : List (Node V Op)) : Eval V M Op V := do
    let vs ← evalElems R ev ns fr sc
    alloc (fun m => R.newArray m vs)
  match args with
  | [] => pure R.nil
  | [.splat e] => array [.splat e]
  | [n] => ev (.node n fr sc)
  | ns => array ns

/-- The entries that `**` takes over from a value. -/
def splatEntries (v : V) : Eval V M Op (List (V × V)) := do
  let s ← Comp.get
  match R.hashOf s.mem v with
  | some es => pure es
  | none =>
    if R.isNil v then pure []
    else do
      let h ← callV ev v "to_h" []
      let s ← Comp.get
      pure ((R.hashOf s.mem h).getD [])

def evalPair (p : Pair V Op) (fr : Frame V) (sc : Nat) : Eval V M Op (List (V × V)) :=
  match p with
  | .pair key value => do
    let k ← ev (.node key fr sc)
    let v ← ev (.node value fr sc)
    pure [(k, v)]
  | .kwsplat e => do
    let v ← ev (.node e fr sc)
    splatEntries R ev v

def evalPairs : List (Pair V Op) → Frame V → Nat → Eval V M Op (List (V × V))
  | [], _, _ => pure []
  | p :: ps, fr, sc => do
    let es ← evalPair R ev p fr sc
    let rest ← evalPairs ps fr sc
    pure (es ++ rest)

/-- A hash in which the last of equal keys counts. -/
def evalHash (pairs : List (Pair V Op)) (fr : Frame V) (sc : Nat) : Eval V M Op V := do
  let es ← evalPairs R ev pairs fr sc
  alloc (fun m => R.newHash m es)

/-- What `&` makes of a value; a symbol and a method become procs of their own. -/
def toProc (v : V) (fr : Frame V) : Eval V M Op (Option Nat) :=
  match R.blockValue v with
  | .nil => pure none
  | .proc p => pure (some p)
  | .sym name => do
    let p ← ownProc none name fr
    pure (some p)
  | .method recv name => do
    let p ← ownProc (some recv) name fr
    pure (some p)
  | .other => do
    let r ← callV ev v "to_proc" []
    match R.blockValue r with
    | .proc p => pure (some p)
    | _ => error R "TypeError" "wrong argument type (expected Proc)"

/-- What is passed with `&`; without a value it is the block of the frame. -/
def passed (e : Option (Node V Op)) (fr : Frame V) (sc : Nat) : Eval V M Op V :=
  match e with
  | some e => ev (.node e fr sc)
  | none => pure ((fr.block.map R.ofProc).getD R.nil)

/-- The arguments that `...` passes on, beside those before. -/
def forwardedArgs (a : CallArgs V) (fr : Frame V) (sc : Nat) : Eval V M Op (CallArgs V) := do
  let s ← Comp.get
  let tail := ((s.get sc "(...)").bind (R.arrayOf s.mem)).getD fr.args
  let kw := (s.get sc "(**...)").filter (fun v => (R.hashOf s.mem v).isSome)
  pure ⟨a.pos ++ tail, kw.or a.kw, fr.block⟩

def evalArg (a : CallArgs V) (n : Node V Op) (fr : Frame V) (sc : Nat) :
    Eval V M Op (CallArgs V) :=
  match n with
  | .splat e => do
    let v ← evalOpt R ev e fr sc
    let vs ← builtin R ev (R.splatList v)
    pure { a with pos := a.pos ++ vs }
  | .kwargs pairs => do
    let h ← evalHash R ev pairs fr sc
    pure { a with kw := some h }
  | .blockPass e => do
    let v ← passed R ev e fr sc
    let b ← toProc R ev v fr
    pure { a with blk := b }
  | .forwardedArgs => forwardedArgs R a fr sc
  | n => do
    let v ← ev (.node n fr sc)
    pure (a.push v)

def evalArgsFrom (a : CallArgs V) : List (Node V Op) → Frame V → Nat → Eval V M Op (CallArgs V)
  | [], _, _ => pure a
  | n :: ns, fr, sc => do
    let a ← evalArg R ev a n fr sc
    evalArgsFrom a ns fr sc

def Pair.isKwsplat : Pair V Op → Bool
  | .kwsplat _ => true
  | .pair _ _ => false

/-- Keyword arguments that are nothing but `**` hashes. -/
def Node.onlyKwsplats : Node V Op → Bool
  | .kwargs pairs => pairs.all (·.isKwsplat)
  | _ => false

/-- The arguments of a call; keyword arguments that take over nothing are none. -/
def evalArgs (ns : List (Node V Op)) (fr : Frame V) (sc : Nat) : Eval V M Op (CallArgs V) := do
  let a ← evalArgsFrom R ev ⟨[], none, none⟩ ns fr sc
  let s ← Comp.get
  let empty := (a.kw.bind (R.hashOf s.mem)) matches some []
  pure (if empty && ns.any (·.onlyKwsplats) then { a with kw := none } else a)

/-! ## Assignments -/

/-- The values of an array, or the value itself. -/
def valuesOf (v : V) : Eval V M Op (List V) := do
  let s ← Comp.get
  pure ((R.arrayOf s.mem v).getD [v])

def Target.takesRest : Target V Op → Bool
  | .splat _ | .restarg _ => true
  | _ => false

/-- What a list of targets is given: one value each, and the values in the middle for the first
target that takes a rest. -/
def shares (items : List (Target V Op)) (values : List V) : Eval V M Op (List V) :=
  let si := items.findIdx (·.takesRest)
  let value (i : Nat) : V := values[i]?.getD R.nil
  if si < items.length then do
    let after := items.length - si - 1
    let stop := max (values.length - after) si
    let mid ← alloc (fun m => R.newArray m ((values.take stop).drop si))
    pure ((List.range si).map value ++ [mid] ++ (List.range after).map (fun j => value (stop + j)))
  else pure ((List.range items.length).map value)

/-- A parameter in parentheses of its own takes the value as it is. -/
def procargShares (items : List (Target V Op)) (v : V) : Eval V M Op (List V) :=
  if items.length = 1 then pure [v]
  else do
    let values ← valuesOf R v
    shares R items values

/-- The name of the method that assigns. -/
def setterName (name : String) : String := if name.endsWith "=" then name else name ++ "="

mutual

def assign (fr : Frame V) (sc : Nat) : Target V Op → V → Eval V M Op Unit
  | .lvar name, v => setVar sc name v
  | .var x, v => do
    let _ ← builtin R ev (R.apply x.write fr [v])
  | .const scope x, v => do
    let m ← ev (.node scope fr sc)
    let _ ← builtin R ev (R.apply x.write fr [v, m])
  | .index recv indexes, v => do
    let r ← ev (.node recv fr sc)
    let a ← evalArgs R ev indexes fr sc
    let _ ← ev (.call r "[]=" (a.push v) true none)
  | .attr recv name, v => do
    let r ← evalOpt R ev recv fr sc
    let _ ← callV ev r (setterName name) [v]
  | .mlhs items, v => do
    let values ← valuesOf R v
    let vs ← shares R items values
    assignAll fr sc items vs
  | .splat target, v => assignOpt fr sc target v
  | .arg name, v => declare sc name v
  | .procarg0 items, v => do
    let vs ← procargShares R items v
    assignAll fr sc items vs
  | .restarg name, v =>
    match name with
    | some name => declare sc name v
    | none => pure ()

def assignOpt (fr : Frame V) (sc : Nat) : Option (Target V Op) → V → Eval V M Op Unit
  | some t, v => assign fr sc t v
  | none, _ => pure ()

def assignAll (fr : Frame V) (sc : Nat) : List (Target V Op) → List V → Eval V M Op Unit
  | [], _ => pure ()
  | t :: ts, vs => do
    assign fr sc t (vs.head?.getD R.nil)
    assignAll fr sc ts vs.tail

end

/-- A target whose operands are evaluated. -/
inductive Place (V Op : Type) where
  | index (recv : V) (a : CallArgs V)
  | attr (recv : V) (name : String)
  | other (target : Target V Op)

/-- The operands of an operator assignment are evaluated once. -/
def place (target : Target V Op) (fr : Frame V) (sc : Nat) : Eval V M Op (Place V Op) :=
  match target with
  | .index recv indexes => do
    let r ← ev (.node recv fr sc)
    let a ← evalArgs R ev indexes fr sc
    pure (.index r a)
  | .attr recv name => do
    let r ← evalOpt R ev recv fr sc
    pure (.attr r (String.ofList (name.toList.reverse.dropWhile (· == '=')).reverse))
  | target => pure (.other target)

def readTarget (target : Target V Op) (fr : Frame V) (sc : Nat) : Eval V M Op V :=
  match target with
  | .lvar name => do
    let s ← Comp.get
    pure ((s.get sc name).getD R.nil)
  | .var x => builtin R ev (R.apply x.read fr [])
  | .const scope x => do
    let m ← ev (.node scope fr sc)
    builtin R ev (R.apply x.read fr [m])
  | target => error R "SyntaxError" ("op-assign target " ++ R.targetName target)

def readPlace (p : Place V Op) (fr : Frame V) (sc : Nat) : Eval V M Op V :=
  match p with
  | .index r a => ev (.call r "[]" a true none)
  | .attr r name => callV ev r name []
  | .other target => readTarget R ev target fr sc

/-- `||=` and `&&=` read constants and class variables without an error. -/
def readPlaceOr (p : Place V Op) (fr : Frame V) (sc : Nat) : Eval V M Op V :=
  match p with
  | .other (.var x) | .other (.const _ x) => builtin R ev (R.apply x.readOr fr [])
  | p => readPlace R ev p fr sc

def writePlace (p : Place V Op) (v : V) (fr : Frame V) (sc : Nat) : Eval V M Op Unit :=
  match p with
  | .index r a => do
    let _ ← ev (.call r "[]=" (a.push v) true none)
  | .attr r name => do
    let _ ← callV ev r (name ++ "=") [v]
  | .other target => assign R ev fr sc target v

def evalOpAsgn (target : Target V Op) (operator : String) (e : Node V Op) (fr : Frame V)
    (sc : Nat) : Eval V M Op V := do
  let p ← place R ev target fr sc
  let cur ← readPlace R ev p fr sc
  let rhs ← ev (.node e fr sc)
  let v ← callV ev cur operator [rhs]
  writePlace R ev p v fr sc
  pure v

def evalLogicAsgn (target : Target V Op) (e : Node V Op) (or_ : Bool) (fr : Frame V) (sc : Nat) :
    Eval V M Op V := do
  let p ← place R ev target fr sc
  let cur ← readPlaceOr R ev p fr sc
  if R.truthy cur = or_ then pure cur
  else do
    let v ← ev (.node e fr sc)
    writePlace R ev p v fr sc
    pure v

/-- What a multiple assignment takes apart. -/
def spreadRhs (rhs : V) : Eval V M Op (List V) := do
  let s ← Comp.get
  match R.arrayOf s.mem rhs with
  | some vs => pure vs
  | none => do
    let answers ← responds R rhs "to_ary"
    if answers then do
      let v ← callV ev rhs "to_ary" []
      builtin R ev (R.toList v)
    else pure [rhs]

def evalMasgn (lhs : List (Target V Op)) (rhs : Node V Op) (fr : Frame V) (sc : Nat) :
    Eval V M Op V := do
  let v ← ev (.node rhs fr sc)
  let values ← spreadRhs R ev v
  let vs ← shares R lhs values
  assignAll R ev fr sc lhs vs
  pure v

/-! ## Loops, cases and rescue clauses -/

/-- What one round of a loop does with the signals of its body. -/
def turn (body again : Eval V M Op V) : Eval V M Op V := do
  match ← Comp.attempt body with
  | .ok _ | .error (.next_ _) => again
  | .error (.break_ v 0) => pure v
  | .error e => Comp.signal e

def forLoop (coll : V) (iterator : Target V Op) (body : Option (Node V Op)) (fr : Frame V)
    (sc : Nat) : List V → Eval V M Op V
  | [] => pure coll
  | it :: items => do
    assign R ev fr sc iterator it
    turn (evalOpt R ev body fr sc) (forLoop coll iterator body fr sc items)

def caseEq (pattern : V) (subject : Option V) : Eval V M Op Bool :=
  match subject with
  | none => pure (R.truthy pattern)
  | some s => do
    let r ← callV ev pattern "===" [s]
    pure (R.truthy r)

def anyCaseEq (subject : Option V) : List V → Eval V M Op Bool
  | [] => pure false
  | v :: vs => do
    let hit ← caseEq R ev v subject
    if hit then pure true else anyCaseEq subject vs

def patternHits (subject : Option V) (n : Node V Op) (fr : Frame V) (sc : Nat) :
    Eval V M Op Bool :=
  match n with
  | .splat e => do
    let v ← evalOpt R ev e fr sc
    let vs ← builtin R ev (R.toList v)
    anyCaseEq R ev subject vs
  | n => do
    let v ← ev (.node n fr sc)
    caseEq R ev v subject

def anyPatternHits (subject : Option V) : List (Node V Op) → Frame V → Nat → Eval V M Op Bool
  | [], _, _ => pure false
  | n :: ns, fr, sc => do
    let hit ← patternHits R ev subject n fr sc
    if hit then pure true else anyPatternHits subject ns fr sc

def evalWhens (subject : Option V) (elseBody : Option (Node V Op)) :
    List (When V Op) → Frame V → Nat → Eval V M Op V
  | [], fr, sc => evalOpt R ev elseBody fr sc
  | .mk patterns body :: ws, fr, sc => do
    let hit ← anyPatternHits R ev subject patterns fr sc
    if hit then evalOpt R ev body fr sc else evalWhens subject elseBody ws fr sc

def rescueClasses (excList : ExcList V Op) (fr : Frame V) (sc : Nat) : Eval V M Op (List V) :=
  match excList with
  | .none => pure [R.standardError]
  | .array elements => evalElems R ev elements fr sc
  | .other e => do
    let v ← ev (.node e fr sc)
    valuesOf R v

/-- The first rescue clause that has a class of the exception. -/
def handled (exc : V) : List (RescueBody V Op) → Frame V → Nat →
    Eval V M Op (Option (Option (Target V Op) × Option (Node V Op)))
  | [], _, _ => pure none
  | .mk excList excVar body :: bodies, fr, sc => do
    let classes ← rescueClasses R ev excList fr sc
    let s ← Comp.get
    if classes.any (R.isA s.mem exc) then pure (some (excVar, body))
    else handled exc bodies fr sc

/-- The body of a clause: its `retry` evaluates the whole statement again. -/
def rescueBody (whole : Node V Op) (body : Option (Node V Op)) (fr : Frame V) (sc : Nat) :
    Eval V M Op V := do
  match ← Comp.attempt (evalOpt R ev body fr sc) with
  | .error .retry => ev (.node whole fr sc)
  | r => Comp.answer r

def evalRescue (whole : Node V Op) (body : Option (Node V Op)) (bodies : List (RescueBody V Op))
    (else_ : Option (Node V Op)) (fr : Frame V) (sc : Nat) : Eval V M Op V := do
  match ← Comp.attempt (evalOpt R ev body fr sc) with
  | .ok v =>
    match else_ with
    | some e => ev (.node e fr sc)
    | none => pure v
  | .error (.raise exc) =>
    match ← handled R ev exc bodies fr sc with
    | none => Comp.signal (.raise exc)
    | some (excVar, body) =>
      assignOpt R ev fr sc excVar exc
      alloc (fun m => ((), R.setErrorInfo m exc))
      rescueBody R ev whole body fr sc
  | .error e => Comp.signal e

/-! ## Calls with and without a block -/

/-- Assignments through a method have the value of the argument. -/
def isSetter (name : String) : Bool :=
  name.toList.getLast? == some '=' && !(["==", "!=", "<=", ">=", "===", "[]="].contains name)

/-- A call of a method, with the block that stands behind it or the one that is passed. -/
def sendArgs (safe : Bool) (recv : Option (Node V Op)) (name : String) (args : List (Node V Op))
    (blk : Option Nat) (fr : Frame V) (sc : Nat) : Eval V M Op V := do
  let rv ← evalPart ev recv fr sc
  if safe && rv.any R.isNil then pure R.nil
  else do
    let a ← evalArgs R ev args fr sc
    let a := { a with blk := blk.or a.blk }
    match isSetter name, rv, a.pos with
    | true, some r, [v] => do
      let _ ← ev (.call r name a false (some fr))
      pure v
    | _, some r, _ => ev (.call r name a false (some fr))
    | _, none, _ => ev (.call fr.selfV name a true (some fr))

def evalSend (safe : Bool) (recv : Option (Node V Op)) (name : String) (args : List (Node V Op))
    (blk : Option Nat) (fr : Frame V) (sc : Nat) : Eval V M Op V :=
  match recv, name, blk with
  | none, "block_given?", _ => pure (R.bool fr.block.isSome)
  | none, "binding", _ => pure R.nil
  | none, "__method__", _ => pure ((fr.method.map (fun m => R.sym m.2)).getD R.nil)
  | none, "__dir__", _ => alloc (fun m => R.dirOf m fr.file)
  | none, "require_relative", _ => do
    let a ← evalArgs R ev args fr sc
    builtin R ev (R.requireRelative fr a)
  | none, "eval", _ => do
    let a ← evalArgs R ev args fr sc
    let s ← Comp.get
    ev (.evalString { fr with file := R.evalFile s.mem a.pos } sc)
  | none, "proc", some b => pure (R.ofProc b)
  | none, "lambda", some b => do
    let s ← Comp.get
    match s.procs[b]? with
    | some p => do
      let b ← addProc { p with lambda := true }
      pure (R.ofProc b)
    | none => error R "ArgumentError" "tried to create Proc object without a block"
  | none, "loop", some b => ev (.loop false b)
  | recv, name, blk => sendArgs R ev safe recv name args blk fr sc

/-- The arguments of the method, and its block unless there is another. -/
def zsuperArgs (fr : Frame V) (blk : Option Nat) : CallArgs V := ⟨fr.args, none, blk⟩

/-- A `break` of this block ends here. -/
def catchBreak (id : Nat) (m : Eval V M Op V) : Eval V M Op V := do
  match ← Comp.attempt m with
  | .error (.break_ v i) => if i = id then pure v else Comp.signal (.break_ v i)
  | r => Comp.answer r

/-- The call that a block stands behind. -/
def callWithBlock (call : Node V Op) (p id : Nat) (fr : Frame V) (sc : Nat) : Eval V M Op V :=
  match call with
  | .lambda => pure (R.ofProc p)
  | .send safe recv name args => catchBreak id (evalSend R ev safe recv name args (some p) fr sc)
  | .super_ args => do
    let a ← evalArgs R ev args fr sc
    catchBreak id (ev (.callSuper fr { a with blk := some p }))
  | .zsuper => catchBreak id (ev (.callSuper fr (zsuperArgs fr (some p))))
  | other => error R "SyntaxError" ("block on " ++ R.nodeName other)

def evalBlockCall (call : Node V Op) (numargs : Nat) (formals : Option (List (Formal V Op)))
    (body : Option (Node V Op)) (fr : Frame V) (sc : Nat) : Eval V M Op V := do
  let id ← freshId
  let p ← addProc ⟨.ast formals body numargs, sc, fr, call matches .lambda, id⟩
  callWithBlock R ev call p id fr sc

/-! ## Definitions -/

/-- The parts of a name that are evaluated. -/
def symName (n : Node V Op) (fr : Frame V) (sc : Nat) : Eval V M Op String := do
  let v ← ev (.node n fr sc)
  let s ← Comp.get
  pure (R.nameOf s.mem v)

/-- Functions of a module are methods of the module itself, too. -/
def defineForModule (target : V) (name : String) (um : UserMethod V Op) : Eval V M Op Unit := do
  let s ← Comp.get
  if R.isModuleFunction s.mem target then do
    let own ← alloc (fun m => R.metaOf m target)
    define own name (.user um)
  else pure ()

def evalDef (name : String) (formals : Option (List (Formal V Op))) (body : Option (Node V Op))
    (fr : Frame V) : Eval V M Op V := do
  let s ← Comp.get
  let um : UserMethod V Op := ⟨name, formals, body, fr.defTarget, fr.cref, fr.file,
    R.isPrivate s.mem fr.defTarget⟩
  define fr.defTarget name (.user um)
  defineForModule R fr.defTarget name um
  builtin R ev (R.methodAdded fr.defTarget name)
  pure (R.sym name)

def evalDefs (definee : Node V Op) (name : String) (formals : Option (List (Formal V Op)))
    (body : Option (Node V Op)) (fr : Frame V) (sc : Nat) : Eval V M Op V := do
  let recv ← ev (.node definee fr sc)
  let target ← builtin R ev (R.singletonOf recv)
  define target name (.user ⟨name, formals, body, target, fr.cref, fr.file, false⟩)
  pure (R.sym name)

def undefAll (fr : Frame V) (sc : Nat) : List (Node V Op) → Eval V M Op V
  | [] => pure R.nil
  | n :: ns => do
    let name ← symName R ev n fr sc
    define fr.defTarget name .undefined
    undefAll fr sc ns

/-- An alias takes over the definition that its module finds, or a builtin of the name. -/
def aliasMethod (target : V) (name source : String) : Eval V M Op Unit := do
  let s ← Comp.get
  let found := (R.findIn s.world target source).bind (fun i => (s.defs[i]?).map (·.2.2))
  define target name (found.getD (.native source))

/-- The body of a class or a module, with a frame and a scope of its own. -/
def evalBodyIn (selfV : V) (cref : List V) (body : Option (Node V Op)) (fr : Frame V) :
    Eval V M Op V := do
  let id ← freshId
  let sc ← newScope none
  evalOpt R ev body ⟨selfV, selfV, cref, none, none, [], id, fr.file⟩ sc

def evalModuleBody (m : V) (body : Option (Node V Op)) (fr : Frame V) : Eval V M Op V := do
  let before ← Comp.get
  let r ← Comp.attempt (evalBodyIn R ev m (fr.cref ++ [m]) body fr)
  Comp.modify (fun s => { s with mem := R.restoreFlags before.mem s.mem m })
  Comp.answer r

/-- The module that a class or module is defined in. -/
def constHolder (scope : Option (Node V Op)) (fr : Frame V) (sc : Nat) : Eval V M Op V := do
  match ← evalPart ev scope fr sc with
  | some v => if R.isModule v then pure v else error R "TypeError" "not a module"
  | none => pure (fr.cref.getLast?.getD R.object)

def evalSuperclass (superclass : Option (Node V Op)) (fr : Frame V) (sc : Nat) :
    Eval V M Op (Option V) := do
  match ← evalPart ev superclass fr sc with
  | some v =>
    if R.isModule v then pure (some v) else error R "TypeError" "superclass must be a Class"
  | none => pure none

def evalClass (scope : Option (Node V Op)) (name : String) (superclass body : Option (Node V Op))
    (fr : Frame V) (sc : Nat) : Eval V M Op V := do
  let holder ← constHolder R ev scope fr sc
  let sup ← evalSuperclass R ev superclass fr sc
  let m ← builtin R ev (R.openClass holder name sup)
  evalModuleBody R ev m body fr

def evalModule (scope : Option (Node V Op)) (name : String) (body : Option (Node V Op))
    (fr : Frame V) (sc : Nat) : Eval V M Op V := do
  let holder ← constHolder R ev scope fr sc
  let m ← builtin R ev (R.openModule holder name)
  evalModuleBody R ev m body fr

def evalSClass (e : Node V Op) (body : Option (Node V Op)) (fr : Frame V) (sc : Nat) :
    Eval V M Op V := do
  let target ← ev (.node e fr sc)
  let single ← builtin R ev (R.singletonOf target)
  evalBodyIn R ev single fr.cref body fr

/-! ## `defined?` -/

/-- Whether a call is defined; a receiver that ends in a signal has nothing defined. -/
def evalDefinedCall (recv : Option (Node V Op)) (name : String) (fr : Frame V) (sc : Nat) :
    Eval V M Op V := do
  let answer (ok : Bool) : Eval V M Op V :=
    if ok then alloc (fun m => R.newText m "method") else pure R.nil
  match recv with
  | none => do
    let ok ← responds R fr.selfV name
    answer ok
  | some r =>
    match ← Comp.attempt (ev (.node r fr sc)) with
    | .ok v => do
      let ok ← responds R v name
      answer ok
    | .error _ => answer false

def evalDefinedConst (e : Node V Op) (fr : Frame V) (sc : Nat) : Eval V M Op V := do
  match ← Comp.attempt (ev (.node e fr sc)) with
  | .ok _ => alloc (fun m => R.newText m "constant")
  | .error _ => pure R.nil

def evalDefinedYield (fr : Frame V) : Eval V M Op V :=
  if fr.block.isSome then alloc (fun m => R.newText m "yield") else pure R.nil

/-! ## Nodes -/

def evalNode (n : Node V Op) (fr : Frame V) (sc : Nat) : Eval V M Op V :=
  match n with
  | .value v => pure v
  | .self_ => pure fr.selfV
  | .lvar name => do
    let s ← Comp.get
    pure ((s.get sc name).getD R.nil)
  | .lvasgn name e => do
    let v ← evalOpt R ev e fr sc
    setVar sc name v
    pure v
  | .op o parts => do
    let vs ← evalElems R ev parts fr sc
    builtin R ev (R.apply o fr vs)
  | .hash pairs | .kwargs pairs => evalHash R ev pairs fr sc
  | .begin_ statements => evalSeq ev R.nil statements fr sc
  | .and_ lhs rhs => do
    let l ← ev (.node lhs fr sc)
    if R.truthy l then ev (.node rhs fr sc) else pure l
  | .or_ lhs rhs => do
    let l ← ev (.node lhs fr sc)
    if R.truthy l then pure l else ev (.node rhs fr sc)
  | .if_ c ifTrue ifFalse => do
    let v ← ev (.node c fr sc)
    evalOpt R ev (if R.truthy v then ifTrue else ifFalse) fr sc
  | .while_ until_ c body => do
    let v ← ev (.node c fr sc)
    if R.truthy v = until_ then pure R.nil
    else turn (evalOpt R ev body fr sc) (ev (.node (.while_ until_ c body) fr sc))
  | .whilePost until_ c body =>
    turn (ev (.node body fr sc)) (do
      let v ← ev (.node c fr sc)
      if R.truthy v = until_ then pure R.nil
      else ev (.node (.whilePost until_ c body) fr sc))
  | .for_ iterator iteratee body => do
    let coll ← ev (.node iteratee fr sc)
    let items ← builtin R ev (R.toList coll)
    forLoop R ev coll iterator body fr sc items
  | .case_ expr whenBodies elseBody => do
    let subject ← evalPart ev expr fr sc
    evalWhens R ev subject elseBody whenBodies fr sc
  | .send safe recv name args => evalSend R ev safe recv name args none fr sc
  | .super_ args => do
    let a ← evalArgs R ev args fr sc
    ev (.callSuper fr a)
  | .zsuper => ev (.callSuper fr (zsuperArgs fr fr.block))
  | .lambda => error R "SyntaxError" "bare lambda"
  | .block call numargs formals body => evalBlockCall R ev call numargs formals body fr sc
  | .index recv indexes => do
    let r ← ev (.node recv fr sc)
    let a ← evalArgs R ev indexes fr sc
    ev (.call r "[]" a true none)
  | .indexAsgn recv indexes e => do
    let r ← ev (.node recv fr sc)
    let a ← evalArgs R ev indexes fr sc
    let v ← evalOpt R ev e fr sc
    let _ ← ev (.call r "[]=" (a.push v) true none)
    pure v
  | .opAsgn target operator e => evalOpAsgn R ev target operator e fr sc
  | .logicAsgn or_ target e => evalLogicAsgn R ev target e or_ fr sc
  | .masgn lhs rhs => evalMasgn R ev lhs rhs fr sc
  | .def_ name formals body => evalDef R ev name formals body fr
  | .defs definee name formals body => evalDefs R ev definee name formals body fr sc
  | .class_ scope name superclass body => evalClass R ev scope name superclass body fr sc
  | .module_ scope name body => evalModule R ev scope name body fr sc
  | .sclass e body => evalSClass R ev e body fr sc
  | .alias_ new source => do
    let name ← symName R ev new fr sc
    let found ← symName R ev source fr sc
    aliasMethod R fr.defTarget name found
    pure R.nil
  | .undef names => undefAll R ev fr sc names
  | .return_ args => do
    let v ← retValue R ev args fr sc
    Comp.signal (.return_ v fr.id)
  | .next_ args => do
    let v ← retValue R ev args fr sc
    Comp.signal (.next_ v)
  | .break_ args => do
    let v ← retValue R ev args fr sc
    Comp.signal (.break_ v 0)
  | .retry => Comp.signal .retry
  | .rescue body bodies else_ => evalRescue R ev (.rescue body bodies else_) body bodies else_ fr sc
  | .ensure body ens => do
    let r ← Comp.attempt (evalOpt R ev body fr sc)
    let _ ← evalOpt R ev ens fr sc
    Comp.answer r
  | .yield_ args => do
    let a ← evalArgs R ev args fr sc
    match fr.block with
    | some b => ev (.callProc b ⟨a.flat, none, a.blk⟩)
    | none => error R "LocalJumpError" "no block given (yield)"
  | .definedCall recv name => evalDefinedCall R ev recv name fr sc
  | .definedConst e => evalDefinedConst R ev e fr sc
  | .definedYield => evalDefinedYield R fr
  | .splat e => evalOpt R ev e fr sc
  | .blockPass _ => error R "SyntaxError" "block pass outside call"
  | .forwardedArgs => error R "NotImplementedError" "node ForwardedArgs not supported"

end Evaluator

end PangeaOperator.RubyEval
