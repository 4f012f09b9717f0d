import PangeaOperator.RubyEval

/-!
# Calls, files and sessions

Arguments, methods, procs and `super` in `lava-ruby/src/call.rs`, the methods of `Kernel` that
handle signals in `stdlib.rs`, the files and texts of `interp.rs`, and the session of `lib.rs`.
-/

namespace PangeaOperator.RubyEval

open LavaRuby (Param Slot Shape)

variable {V M Op : Type}

section Evaluator

variable (R : Ruby V M Op) (ev : Task V M Op → Eval V M Op V)

/-! ## Calls -/

section Binding

variable (m : M) (kw : Option V)

/-- What is asked of values when arguments are bound, with the hash of the keywords. -/
def shape : Shape V := ⟨R.arrayOf m, fun _ => kw.getD R.nil, R.symbolOf⟩

/-- The arguments as they are bound. -/
def boundArgs (a : CallArgs V) : LavaRuby.Args (shape R m a.kw) where
  pos := a.pos
  kw := a.kw.bind (fun v =>
    match h : R.hashOf m v with
    | some es => some ⟨es, R.distinct m v es h⟩
    | none => none)

end Binding

/-- The values that the positional parameters are handed out from. -/
def handedOut (m : M) (params : List Param) (a : CallArgs V) (strict : Bool) (mname : String) :
    List V :=
  let given := LavaRuby.positionals (shape R m a.kw) params (boundArgs R m a) mname
  if strict then given else LavaRuby.spread (shape R m a.kw) params given

/-- Where there are keyword parameters, or `...`, the keywords stay keywords. -/
def keywordsFor (m : M) (params : List Param) (a : CallArgs V) : List (V × V) :=
  if params.any (·.isKeyword) || params.any (·.isForward) then
    (a.kw.bind (R.hashOf m)).getD []
  else []

def Slot.value (slot : Slot V) : V :=
  match slot with
  | .value v => v
  | _ => R.nil

def bindSlot (fr : Frame V) (sc : Nat) : Formal V Op → Slot V → Eval V M Op Unit
  | .mk (.optarg name) _ dflt, .default => do
    let v ← evalOpt R ev dflt fr sc
    declare sc name v
  | .mk (.arg name) _ _, slot | .mk (.optarg name) _ _, slot => declare sc name (Slot.value R slot)
  | .mk (.restarg name) _ _, .rest vs => do
    let v ← alloc (fun m => R.newArray m vs)
    declare sc (name.getD "__lava_rest") v
  | .mk .mlhs items _, slot => assign R ev fr sc (.mlhs items) (Slot.value R slot)
  | .mk (.procarg0 _) items _, slot => assign R ev fr sc (.procarg0 items) (Slot.value R slot)
  | _, _ => pure ()

def bindSlots (fr : Frame V) (sc : Nat) : List (Formal V Op × Slot V) → Eval V M Op Unit
  | [] => pure ()
  | (f, slot) :: slots => do
    bindSlot R ev fr sc f slot
    bindSlots fr sc slots

/-- What `...` stands for. -/
def bindForwarded (sc : Nat) (params : List Param) (tail : List V) (kw : Option V) :
    Eval V M Op Unit :=
  if params.any (·.isForward) then do
    let v ← alloc (fun m => R.newArray m tail)
    declare sc "(...)" v
    match kw with
    | some k => declare sc "(**...)" k
    | none => pure ()
  else pure ()

/-- A keyword parameter, with what says whether its keyword was given. -/
def bindKeyword (look : String → Option V) (fr : Frame V) (sc : Nat) (f : Formal V Op) :
    Eval V M Op (Option (String × Option V)) :=
  match f with
  | .mk (.kwarg name) _ _ =>
    match look name with
    | some v => do
      declare sc name v
      pure (some (name, some v))
    | none => error R "ArgumentError" ("missing keyword: :" ++ name)
  | .mk (.kwoptarg name) _ dflt =>
    match look name with
    | some v => do
      declare sc name v
      pure (some (name, some v))
    | none => do
      let v ← evalOpt R ev dflt fr sc
      declare sc name v
      pure (some (name, none))
  | _ => pure none

def bindKeywords (look : String → Option V) (fr : Frame V) (sc : Nat) :
    List (Formal V Op) → Eval V M Op (List (String × Option V))
  | [] => pure []
  | f :: fs => do
    let k ← bindKeyword R ev look fr sc f
    let ks ← bindKeywords look fr sc fs
    pure (k.toList ++ ks)

/-- The keywords that no parameter takes. -/
def bindCollected (m : M) (kw : Option V) (sc : Nat) (strict : Bool) (params : List Param)
    (keywords : List (String × Option V)) (entries : List (V × V)) : Eval V M Op Unit :=
  match LavaRuby.collect (shape R m kw) strict params keywords entries with
  | .error message => error R "ArgumentError" message
  | .ok none => pure ()
  | .ok (some es) => do
    let h ← alloc (fun m => R.newHash m es)
    let name := params.findSome? (fun p => match p with | .kwrestarg name => some name | _ => none)
    declare sc ((name.join).getD "__lava_kwrest") h

/-- The block, and the names that a block keeps to itself. -/
def bindBlockParam (sc : Nat) (blk : Option Nat) : Param → Eval V M Op Unit
  | .blockarg (some name) => declare sc name ((blk.map R.ofProc).getD R.nil)
  | .shadow name => declare sc name R.nil
  | _ => pure ()

def bindBlock (sc : Nat) (blk : Option Nat) : List Param → Eval V M Op Unit
  | [] => pure ()
  | p :: ps => do
    bindBlockParam R sc blk p
    bindBlock sc blk ps

def bindFormals (formals : List (Formal V Op)) (a : CallArgs V) (fr : Frame V) (sc : Nat)
    (strict : Bool) (mname : String) : Eval V M Op Unit := do
  let params := formals.map (·.param)
  let s ← Comp.get
  let pos := handedOut R s.mem params a strict mname
  if strict && !LavaRuby.arityOk params pos.length then
    error R "ArgumentError" (LavaRuby.arityError params pos.length)
  else do
    let req := LavaRuby.count Param.isRequired params
    let availOpt := min (pos.length - req) (LavaRuby.count Param.isOptional params)
    let slots :=
      LavaRuby.bindLoop strict pos availOpt (pos.length - (req + availOpt)) params 0 0 false
    let kw := keywordsFor R s.mem params a
    bindForwarded R sc params (pos.drop (req + availOpt)) a.kw
    bindSlots R ev fr sc ((formals.filter (·.isPositional)).zip (slots.map (·.2)))
    let look (name : String) : Option V := LavaRuby.lookupKw (shape R s.mem a.kw) name kw
    let keywords ← bindKeywords R ev look fr sc formals
    bindCollected R s.mem a.kw sc strict params keywords kw
    bindBlock R sc a.blk params

/-- Without a parameter list, only a method refuses arguments. -/
def bindNone (a : CallArgs V) (strict : Bool) (mname : String) : Eval V M Op Unit :=
  if strict && !a.pos.isEmpty && mname != "block" then
    error R "ArgumentError"
      ("wrong number of arguments (given " ++ toString a.pos.length ++ ", expected 0)")
  else pure ()

def bindParams (formals : Option (List (Formal V Op))) (a : CallArgs V) (fr : Frame V) (sc : Nat)
    (strict : Bool) (mname : String) : Eval V M Op Unit :=
  match formals with
  | some formals => bindFormals R ev formals a fr sc strict mname
  | none => bindNone R a strict mname

/-- The parameters `_1`, `_2` of a block that names none. -/
def bindNumbered (numargs : Nat) (args : List V) (sc : Nat) : Eval V M Op Unit := do
  let s ← Comp.get
  let values :=
    match args with
    | [v] => if numargs > 1 then (R.arrayOf s.mem v).getD args else args
    | _ => args
  go values numargs
where
  go (values : List V) : Nat → Eval V M Op Unit
    | 0 => pure ()
    | i + 1 => do
      go values i
      declare sc ("_" ++ toString (i + 1)) (values[i]?.getD R.nil)

/-- A `return` of this frame ends here. -/
def catchReturn (id : Nat) (m : Eval V M Op V) : Eval V M Op V := do
  match ← Comp.attempt m with
  | .error (.return_ v i) => if i = id then pure v else Comp.signal (.return_ v i)
  | r => Comp.answer r

def callUser (recv : V) (um : UserMethod V Op) (a : CallArgs V) : Eval V M Op V := do
  let id ← freshId
  let sc ← newScope none
  let fr : Frame V :=
    ⟨recv, um.owner, um.cref, a.blk, some (um.owner, um.name), a.flat, id, um.file⟩
  bindParams R ev um.formals a fr sc true um.name
  catchReturn id (evalOpt R ev um.body fr sc)

def bindBlockParams (formals : Option (List (Formal V Op))) (numargs : Nat) (a : CallArgs V)
    (fr : Frame V) (sc : Nat) (lambda : Bool) : Eval V M Op Unit :=
  if numargs > 0 then bindNumbered R numargs a.pos sc
  else bindParams R ev formals a fr sc lambda "block"

def callProcIn (p : Proc V Op) (a : CallArgs V) (fr : Frame V) (lambda : Bool) : Eval V M Op V :=
  match p.body with
  | .symToProc name =>
    ev (.call (a.pos.head?.getD R.nil) name ⟨a.pos.tail, none, a.blk⟩ false none)
  | .method recv name => ev (.call recv name a true none)
  | .ast formals body numargs => do
    let sc ← newScope (some p.scope)
    bindBlockParams R ev formals numargs a fr sc lambda
    declareBlockArg sc
    match ← Comp.attempt (evalOpt R ev body fr sc) with
    | .error (.next_ v) => pure v
    | .error (.break_ v 0) => Comp.signal (.break_ v p.id)
    | .error (.return_ v i) =>
      if lambda && p.lambda && i == fr.id then pure v else Comp.signal (.return_ v i)
    | r => Comp.answer r
where
  declareBlockArg (sc : Nat) : Eval V M Op Unit :=
    match a.blk with
    | some b => declare sc "__lava_blockarg" (R.ofProc b)
    | none => pure ()

/-- The tag of a `catch`, a new object if there is none. -/
def catchTag (args : List V) : Eval V M Op V :=
  match args with
  | tag :: _ => pure tag
  | [] => alloc R.newObj

def evalCatch (a : CallArgs V) (b : Nat) : Eval V M Op V := do
  let tag ← catchTag R a.pos
  match ← Comp.attempt (ev (.callProc b (.of [tag]))) with
  | .error (.throw_ t v) => do
    let same ← builtin R ev (R.rbEq t tag)
    if same then pure v else Comp.signal (.throw_ t v)
  | r => Comp.answer r

/-- The methods of `Kernel` that handle signals; the others are builtins. -/
def kernelFn (recv : V) (name : String) (a : CallArgs V) (caller : Option (Frame V)) :
    Eval V M Op (Option V) :=
  match name, a.blk with
  | "catch", some b => do
    let v ← evalCatch R ev a b
    pure (some v)
  | "catch", none => error R "LocalJumpError" "no block"
  | "throw", _ =>
    Comp.signal (.throw_ (a.flat.head?.getD R.nil) (a.flat.tail.head?.getD R.nil))
  | "loop", some b => do
    let v ← ev (.loop true b)
    pure (some v)
  | "loop", none => error R "LocalJumpError" "no block"
  | "lambda", some b | "proc", some b => pure (some (R.ofProc b))
  | "lambda", none | "proc", none =>
    error R "ArgumentError" "tried to create Proc object without a block"
  | _, _ => builtin R ev (R.objectNative recv name a caller)

def nativeCall (recv : V) (name : String) (a : CallArgs V) (caller : Option (Frame V)) :
    Eval V M Op (Option V) := do
  match ← builtin R ev (R.typeNative recv name a caller) with
  | some v => pure (some v)
  | none => kernelFn R ev recv name a caller

/-- A builtin, and what follows if there is none of the name. -/
def nativeOr (recv : V) (name : String) (a : CallArgs V) (caller : Option (Frame V))
    (missing : Eval V M Op V) : Eval V M Op V := do
  match ← nativeCall R ev recv name a caller with
  | some v => pure v
  | none => missing

/-- The receiver's own `method_missing`, which does not answer for itself. -/
def ownMethodMissing (recv : V) (name : String) : Eval V M Op (Option (Meth V Op × V)) :=
  if name = "method_missing" then pure none else findMethod R recv "method_missing"

def methodMissing (recv : V) (name : String) (a : CallArgs V) (fcall : Bool) : Eval V M Op V := do
  match ← ownMethodMissing R recv name with
  | some (m, owner) =>
    ev (.invoke m owner recv "method_missing" { a with pos := R.sym name :: a.pos } none)
  | none => do
    let s ← Comp.get
    let what := if fcall then "undefined local variable or method" else "undefined method"
    let cls := if fcall && a.pos.isEmpty then "NameError" else "NoMethodError"
    error R cls (what ++ " '" ++ name ++ "' for " ++ R.describe s.mem recv)

def dispatch (recv : V) (name : String) (a : CallArgs V) (fcall : Bool)
    (caller : Option (Frame V)) : Eval V M Op V := do
  match ← findMethod R recv name with
  | some (m, owner) => ev (.invoke m owner recv name a caller)
  | none => nativeOr R ev recv name a caller (methodMissing R ev recv name a fcall)

def setDepth (d : Nat) : Eval V M Op Unit := Comp.modify (fun s => { s with depth := d })

def callFull (recv : V) (name : String) (a : CallArgs V) (fcall : Bool)
    (caller : Option (Frame V)) : Eval V M Op V := do
  let s ← Comp.get
  if s.depth > maxDepth then error R "SystemStackError" "stack level too deep"
  else do
    setDepth (s.depth + 1)
    let r ← Comp.attempt (dispatch R ev recv name a fcall caller)
    setDepth s.depth
    Comp.answer r

/-- A method that is made of a block: a `return` ends it. -/
def invokeProc (p : Nat) (owner recv : V) (name : String) (a : CallArgs V) : Eval V M Op V := do
  let id ← freshId
  let s ← Comp.get
  let fr (p : Proc V Op) : Frame V := ⟨recv, R.defTargetFor s.mem recv, p.frame.cref, a.blk,
    some (owner, name), a.flat, id, p.frame.file⟩
  catchReturn id (withProc R p (fun p => ev (.callProcIn p ⟨a.flat, a.kw, a.blk⟩ (fr p) true)))

def invoke (m : Meth V Op) (owner recv : V) (name : String) (a : CallArgs V)
    (caller : Option (Frame V)) : Eval V M Op V :=
  match m with
  | .user um => callUser R ev recv um a
  | .proc p => invokeProc R ev p owner recv name a
  | .native n => nativeOr R ev recv n a caller (methodMissing R ev recv n a true)
  | .undefined => methodMissing R ev recv name a false

/-- Where there is no method behind a `super`, some names have a default. -/
def superMissing (recv : V) (name : String) (a : CallArgs V) : Eval V M Op V := do
  let s ← Comp.get
  if name = "method_missing" then
    error R "NoMethodError" ("undefined method '" ++ ((a.pos.head?.map (R.nameOf s.mem)).getD "") ++
      "' for " ++ R.describe s.mem recv)
  else if name = "respond_to_missing?" then pure (R.bool false)
  else if ["initialize", "inherited", "included", "extended"].contains name then pure R.nil
  else error R "NoMethodError" ("super: no superclass method '" ++ name ++ "'")

def callSuper (fr : Frame V) (a : CallArgs V) : Eval V M Op V :=
  match fr.method with
  | none => error R "RuntimeError" "super called outside of method"
  | some (owner, name) => do
    let s ← Comp.get
    match (R.findSuper s.world fr.selfV owner name).bind
        (fun f => (s.defs[f.1]?).map (fun d => (d.2.2, f.2))) with
    | some (m, o) => ev (.invoke m o fr.selfV name a (some fr))
    | none => nativeOr R ev fr.selfV name a (some fr) (superMissing R fr.selfV name a)

/-- One round of `loop`: a `StopIteration` ends it with its result. -/
def loopRound (kernel : Bool) (p : Nat) (id : Nat) : Eval V M Op V := do
  match ← Comp.attempt (ev (.callProc p (.of []))) with
  | .ok _ => ev (.loop kernel p)
  | .error (.break_ v i) => if i = id then pure v else Comp.signal (.break_ v i)
  | .error (.stopIter v) => if kernel then Comp.signal (.stopIter v) else pure v
  | .error (.raise e) => do
    let s ← Comp.get
    if R.isStopIteration s.mem e then pure (R.result s.mem e) else Comp.signal (.raise e)
  | .error e => Comp.signal e

/-! ## Texts and files -/

/-- The next text, evaluated in a frame and a scope. -/
def evalString (fr : Frame V) (sc : Nat) : Eval V M Op V := do
  match ← nextText with
  | .error e => error R e.1 e.2
  | .ok none => pure R.nil
  | .ok (some ast) => ev (.node ast fr sc)

/-- A file has a frame of its own, which a `return` ends. -/
def loadFile (file : String) : Eval V M Op V := do
  match ← nextText with
  | .error e => error R e.1 e.2
  | .ok none => pure R.nil
  | .ok (some ast) => do
    let id ← freshId
    let sc ← newScope none
    let fr : Frame V := ⟨R.main, R.object, [R.object], none, none, [], id, file⟩
    match ← Comp.attempt (ev (.node ast fr sc)) with
    | .error (.return_ v _) => pure v
    | r => Comp.answer r

def evalStep (t : Task V M Op) : Eval V M Op V :=
  match t with
  | .node n fr sc => evalNode R ev n fr sc
  | .callProc p a => withProc R p (fun p => ev (.callProcIn p a p.frame p.lambda))
  | .callProcIn p a fr lambda => callProcIn R ev p a fr lambda
  | .call recv name a fcall caller => callFull R ev recv name a fcall caller
  | .invoke m owner recv name a caller => invoke R ev m owner recv name a caller
  | .callSuper fr a => callSuper R ev fr a
  | .loop kernel p => withProc R p (fun q => loopRound R ev kernel p q.id)
  | .loadFile file => loadFile R ev file
  | .evalString fr sc => evalString R ev fr sc

end Evaluator

/-- The evaluator, cut off after so many nested steps. -/
def eval (R : Ruby V M Op) : Nat → Task V M Op → Eval V M Op V
  | 0 => fun _ => Comp.diverge
  | fuel + 1 => evalStep R (eval R fuel)

/-! ## A session -/

section Session

variable (R : Ruby V M Op) (fuel : Nat)

/-- A new interpreter reads its prelude, which must not raise. -/
def newInterp : Eval V M Op Unit := do
  match ← Comp.attempt (eval R fuel (.loadFile R.prelude)) with
  | .error (.raise _) => Comp.diverge
  | _ => pure ()

/-- A text that a session evaluates has the top frame and a scope of its own. -/
def sessionEval (file : String) : Eval V M Op V := do
  let sc ← newScope none
  eval R fuel (.evalString { topFrame R with file := file } sc)

/-- The texts of a session, one after the other, and what each ends with. Before each, the caller
may set variables. -/
def sessionEvals : List (String × (M → M)) → Eval V M Op (List (Except (Ctrl V) V))
  | [] => pure []
  | (file, prepare) :: texts => do
    Comp.modify (fun s => { s with mem := prepare s.mem })
    let r ← Comp.attempt (sessionEval R fuel file)
    let rs ← sessionEvals texts
    pure (r :: rs)

def session (texts : List (String × (M → M))) : Eval V M Op (List (Except (Ctrl V) V)) := do
  newInterp R fuel
  sessionEvals R fuel texts

end Session

inductive RenderError where
  | raised (cls message : String)
  | escaped (what : String)
  deriving DecidableEq, Repr

/-- What a session makes of the end of a text, with what it says of a value and of an exception. -/
def finish (toS : V → String) (exception : V → String × String) :
    Except (Ctrl V) V → Except RenderError String
  | .ok v => .ok (toS v)
  | .error (.raise e) => .error (.raised (exception e).1 (exception e).2)
  | .error (.return_ _ _) => .error (.escaped "return")
  | .error (.break_ _ _) => .error (.escaped "break")
  | .error (.next_ _) => .error (.escaped "next")
  | .error (.throw_ _ _) => .error (.escaped "throw")
  | .error .retry => .error (.escaped "retry")
  | .error (.stopIter _) => .error (.escaped "StopIteration")

end PangeaOperator.RubyEval
