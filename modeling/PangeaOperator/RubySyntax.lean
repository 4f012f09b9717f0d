import PangeaOperator.RubyParams

/-!
# The interpreter's state

The syntax that `lava-ruby/src/eval.rs` evaluates, and what `interp.rs` and `value.rs` keep for it.
What the builtins do is a parameter: they work on a memory of their own, see the procs and the
definitions, and may call methods and blocks, define methods, and read files and texts; the signal
that such a call ends with they pass on. The parser is outside: what it makes of the texts of a
run, in their order, is part of the store. Positions in the source, which only backtraces show, are
left out.
-/

namespace PangeaOperator.RubyEval

open LavaRuby (Param Slot Shape)

inductive Ctrl (V : Type) where
  | raise (e : V)
  | return_ (v : V) (frame : Nat)
  | break_ (v : V) (block : Nat)
  | next_ (v : V)
  | throw_ (tag v : V)
  | retry
  | stopIter (v : V)
  deriving DecidableEq, Repr

/-- How the builtins read and write a variable that is not a local one; `||=` and `&&=` read it in
their own way. -/
structure Variable (Op : Type) where
  read : Op
  readOr : Op
  write : Op

mutual

/-- Syntax, with `value` for literals that need no memory and `op` for what evaluates its parts and
leaves the rest to a builtin: variables other than local ones, constants, texts, arrays, ranges,
regular expressions, `defined?` of an expression that is not evaluated, and the nodes that are not
supported. What stands in a text is an `op` of its own, which makes a text of its value. -/
inductive Node (V Op : Type) where
  | value (v : V)
  | self_
  | lvar (name : String)
  | lvasgn (name : String) (e : Option (Node V Op))
  | op (o : Op) (parts : List (Node V Op))
  | hash (pairs : List (Pair V Op))
  | begin_ (statements : List (Node V Op))
  | and_ (lhs rhs : Node V Op)
  | or_ (lhs rhs : Node V Op)
  | if_ (c : Node V Op) (ifTrue ifFalse : Option (Node V Op))
  | while_ (until_ : Bool) (c : Node V Op) (body : Option (Node V Op))
  | whilePost (until_ : Bool) (c body : Node V Op)
  | for_ (iterator : Target V Op) (iteratee : Node V Op) (body : Option (Node V Op))
  | case_ (expr : Option (Node V Op)) (whenBodies : List (When V Op))
      (elseBody : Option (Node V Op))
  | send (safe : Bool) (recv : Option (Node V Op)) (name : String) (args : List (Node V Op))
  | super_ (args : List (Node V Op))
  | zsuper
  | lambda
  | block (call : Node V Op) (numargs : Nat) (formals : Option (List (Formal V Op)))
      (body : Option (Node V Op))
  | index (recv : Node V Op) (indexes : List (Node V Op))
  | indexAsgn (recv : Node V Op) (indexes : List (Node V Op)) (e : Option (Node V Op))
  | opAsgn (target : Target V Op) (operator : String) (e : Node V Op)
  | logicAsgn (or_ : Bool) (target : Target V Op) (e : Node V Op)
  | masgn (lhs : List (Target V Op)) (rhs : Node V Op)
  | def_ (name : String) (formals : Option (List (Formal V Op))) (body : Option (Node V Op))
  | defs (definee : Node V Op) (name : String) (formals : Option (List (Formal V Op)))
      (body : Option (Node V Op))
  | class_ (scope : Option (Node V Op)) (name : String) (superclass body : Option (Node V Op))
  | module_ (scope : Option (Node V Op)) (name : String) (body : Option (Node V Op))
  | sclass (e : Node V Op) (body : Option (Node V Op))
  | alias_ (new source : Node V Op)
  | undef (names : List (Node V Op))
  | return_ (args : List (Node V Op))
  | next_ (args : List (Node V Op))
  | break_ (args : List (Node V Op))
  | retry
  | rescue (body : Option (Node V Op)) (bodies : List (RescueBody V Op))
      (else_ : Option (Node V Op))
  | ensure (body ens : Option (Node V Op))
  | yield_ (args : List (Node V Op))
  | definedCall (recv : Option (Node V Op)) (name : String)
  | definedConst (e : Node V Op)
  | definedYield
  | splat (e : Option (Node V Op))
  | blockPass (e : Option (Node V Op))
  | kwargs (pairs : List (Pair V Op))
  | forwardedArgs

/-- An entry of a hash, or a hash whose entries are taken over. -/
inductive Pair (V Op : Type) where
  | pair (key value : Node V Op)
  | kwsplat (e : Node V Op)

inductive When (V Op : Type) where
  | mk (patterns : List (Node V Op)) (body : Option (Node V Op))

inductive RescueBody (V Op : Type) where
  | mk (excList : ExcList V Op) (excVar : Option (Target V Op)) (body : Option (Node V Op))

/-- The classes of a rescue clause: none, a list, or another expression. -/
inductive ExcList (V Op : Type) where
  | none
  | array (elements : List (Node V Op))
  | other (e : Node V Op)

/-- What stands on the left of an assignment, or is a pattern of a parameter. -/
inductive Target (V Op : Type) where
  | lvar (name : String)
  | var (x : Variable Op)
  | const (scope : Node V Op) (x : Variable Op)
  | index (recv : Node V Op) (indexes : List (Node V Op))
  | attr (recv : Option (Node V Op)) (name : String)
  | mlhs (items : List (Target V Op))
  | splat (target : Option (Target V Op))
  | arg (name : String)
  | procarg0 (items : List (Target V Op))
  | restarg (name : Option String)

/-- A parameter, with the items of its pattern and the expression of its default. -/
inductive Formal (V Op : Type) where
  | mk (param : Param) (items : List (Target V Op)) (default : Option (Node V Op))

end

variable {V M Op : Type}

def Formal.param : Formal V Op → Param
  | .mk p _ _ => p

def Formal.isPositional (f : Formal V Op) : Bool := f.param.isPositional

/-- Arguments, with the hash of the keyword arguments and the block. -/
structure CallArgs (V : Type) where
  pos : List V
  kw : Option V
  blk : Option Nat
  deriving Repr

def CallArgs.flat (a : CallArgs V) : List V := a.pos ++ a.kw.toList

def CallArgs.push (a : CallArgs V) (v : V) : CallArgs V := { a with pos := a.pos ++ [v] }

/-- Arguments by position. -/
def CallArgs.of (vs : List V) : CallArgs V := ⟨vs, none, none⟩

structure Frame (V : Type) where
  selfV : V
  defTarget : V
  cref : List V
  block : Option Nat
  /-- The module that has the method which runs, and its name. -/
  method : Option (V × String)
  args : List V
  id : Nat
  file : String
  deriving Repr

inductive ProcBody (V Op : Type) where
  | ast (formals : Option (List (Formal V Op))) (body : Option (Node V Op)) (numargs : Nat)
  | symToProc (name : String)
  | method (recv : V) (name : String)

structure Proc (V Op : Type) where
  body : ProcBody V Op
  scope : Nat
  frame : Frame V
  lambda : Bool
  id : Nat

structure UserMethod (V Op : Type) where
  name : String
  formals : Option (List (Formal V Op))
  body : Option (Node V Op)
  owner : V
  cref : List V
  file : String
  private_ : Bool

inductive Meth (V Op : Type) where
  | user (um : UserMethod V Op)
  | proc (p : Nat)
  | native (name : String)
  | undefined

structure Scope (V : Type) where
  vars : List (String × V)
  parent : Option Nat

/-- What reading and parsing a text gives: the class and the message of an error, or a node unless
the text is empty. -/
abbrev Text (V Op : Type) := Except (String × String) (Option (Node V Op))

/-- What a run changes; `mem` is what the builtins keep. Procs and scopes are shared, so they are
named by their place. `texts` are those that are still to be read. -/
structure Store (V M Op : Type) where
  mem : M
  procs : List (Proc V Op)
  defs : List (V × String × Meth V Op)
  scopes : List (Scope V)
  nextId : Nat
  depth : Nat
  texts : List (Text V Op)

/-- What a builtin sees. -/
structure World (V M Op : Type) where
  mem : M
  procs : List (Proc V Op)
  defs : List (V × String × Meth V Op)

def Store.world (s : Store V M Op) : World V M Op := ⟨s.mem, s.procs, s.defs⟩

/-- What `&` makes of a value. -/
inductive BlockValue (V : Type) where
  | nil
  | proc (p : Nat)
  | sym (name : String)
  | method (recv : V) (name : String)
  | other

/-- What a builtin defines under a name. -/
inductive NativeDef where
  | proc (p : Nat)
  | native (name : String)
  | copy (i : Nat)
  | undefined

/-- What a builtin does, with the memory that it leaves before each step. A signal ends it; `undo`
is what it restores then. -/
inductive Native (V M Op α : Type) where
  | done (r : Except V α) (m : M)
  | callProc (p : Nat) (a : CallArgs V) (m : M) (undo : M → M)
      (next : V → World V M Op → Native V M Op α)
  | callProcSelf (p : Nat) (self_ target : V) (cref : List V → List V) (args : List V) (m : M)
      (next : V → World V M Op → Native V M Op α)
  | call (recv : V) (name : String) (a : CallArgs V) (fcall : Bool) (caller : Option (Frame V))
      (m : M) (next : V → World V M Op → Native V M Op α)
  | invoke (i : Nat) (owner recv : V) (name : String) (a : CallArgs V) (m : M)
      (next : V → World V M Op → Native V M Op α)
  | newProc (recv : Option V) (name : String) (m : M) (next : Nat → World V M Op → Native V M Op α)
  | define (target : V) (name : String) (d : NativeDef) (m : M)
      (next : World V M Op → Native V M Op α)
  | remove (target : V) (name : String) (m : M) (next : World V M Op → Native V M Op α)
  | loadFile (file : String) (m : M) (next : V → World V M Op → Native V M Op α)
  | evalString (self_ target : V) (cref : List V) (file : String) (m : M)
      (next : V → World V M Op → Native V M Op α)

/-- The values and the builtins. -/
structure Ruby (V M Op : Type) where
  nil : V
  bool : Bool → V
  sym : String → V
  ofProc : Nat → V
  truthy : V → Bool
  isNil : V → Bool
  isModule : V → Bool
  symbolOf : V → Option String
  blockValue : V → BlockValue V
  nameOf : M → V → String
  arrayOf : M → V → Option (List V)
  hashOf : M → V → Option (List (V × V))
  /-- A hash has each key once. -/
  distinct : ∀ m v es, hashOf m v = some es → (es.filterMap (fun e => symbolOf e.1)).Nodup
  newArray : M → List V → V × M
  newHash : M → List (V × V) → V × M
  newText : M → String → V × M
  newObj : M → V × M
  /-- A new exception of the class. -/
  err : M → String → String → V × M
  /-- The memory with the exception as `$!`. -/
  setErrorInfo : M → V → M
  standardError : V
  isA : M → V → V → Bool
  isStopIteration : M → V → Bool
  /-- The `@result` of a `StopIteration`. -/
  result : M → V → V
  describe : M → V → String
  defTargetFor : M → V → V
  metaOf : M → V → V × M
  isModuleFunction : M → V → Bool
  isPrivate : M → V → Bool
  /-- The memory with the flags of the module as they were before. -/
  restoreFlags : M → M → V → M
  nodeName : Node V Op → String
  targetName : Target V Op → String
  dirOf : M → String → V × M
  evalFile : M → List V → String
  main : V
  object : V
  prelude : String
  sameModule : V → V → Bool
  /-- The definition that a call finds and the module that has it, the next one for a `super`, and
  the one that an alias takes over. -/
  find : World V M Op → V → String → Option (Nat × V)
  findSuper : World V M Op → V → V → String → Option (Nat × V)
  findIn : World V M Op → V → String → Option Nat
  nativeResponds : M → V → String → Bool
  apply : Op → Frame V → List V → World V M Op → Native V M Op V
  toList : V → World V M Op → Native V M Op (List V)
  splatList : V → World V M Op → Native V M Op (List V)
  rbEq : V → V → World V M Op → Native V M Op Bool
  singletonOf : V → World V M Op → Native V M Op V
  openClass : V → String → Option V → World V M Op → Native V M Op V
  openModule : V → String → World V M Op → Native V M Op V
  methodAdded : V → String → World V M Op → Native V M Op Unit
  requireRelative : Frame V → CallArgs V → World V M Op → Native V M Op V
  /-- The builtins of the receiver's own type, and those of every object. -/
  typeNative : V → String → CallArgs V → Option (Frame V) → World V M Op → Native V M Op (Option V)
  objectNative : V → String → CallArgs V → Option (Frame V) → World V M Op →
    Native V M Op (Option V)

def maxDepth : Nat := 2000

/-! ## The store -/

namespace Store

variable (s : Store V M Op)

def newScope (parent : Option Nat) : Nat × Store V M Op :=
  (s.scopes.length, { s with scopes := s.scopes ++ [⟨[], parent⟩] })

def declare (sc : Nat) (name : String) (v : V) : Store V M Op :=
  { s with scopes := s.scopes.modify sc (fun x => { x with vars := (name, v) :: x.vars }) }

/-- The scope that has the name, from this one outwards. -/
def holder (name : String) : Nat → Option Nat → Option Nat
  | 0, _ => none
  | _, none => none
  | fuel + 1, some sc =>
    match s.scopes[sc]? with
    | none => none
    | some x => if x.vars.any (·.1 == name) then some sc else holder name fuel x.parent

def get (sc : Nat) (name : String) : Option V := do
  let h ← s.holder name s.scopes.length (some sc)
  let x ← s.scopes[h]?
  (x.vars.find? (·.1 == name)).map (·.2)

def set_ (sc : Nat) (name : String) (v : V) : Store V M Op :=
  s.declare ((s.holder name s.scopes.length (some sc)).getD sc) name v

def addProc (p : Proc V Op) : Nat × Store V M Op :=
  (s.procs.length, { s with procs := s.procs ++ [p] })

def define (target : V) (name : String) (m : Meth V Op) : Store V M Op :=
  { s with defs := s.defs ++ [(target, name, m)] }

def remove (same : V → V → Bool) (target : V) (name : String) : Store V M Op :=
  { s with defs := s.defs.filter (fun d => !(same d.1 target && d.2.1 == name)) }

end Store

end PangeaOperator.RubyEval
