import PangeaOperator.RubyScoping

/-!
# Constructs keep to their surroundings

Where the tasks that an evaluation step calls for end with signals that their surroundings take,
so does every construct: operands, assignments, loops, rescue clauses, calls and definitions.
-/

namespace PangeaOperator.RubyEval

variable {V M Op α β : Type}

section Step

variable (R : Ruby V M Op) {ev : Task V M Op → Eval V M Op V}
  (hev : ∀ c t, Task.Fits c t → Keeps c (ev t)) {c : Ctx}

include hev

/-! ## Builtins -/

omit hev in
theorem scoped_meth {s : Store V M Op} (hs : s.Scoped) (d : NativeDef) : (d.meth s).Scoped := by
  cases d with
  | proc p => trivial
  | native name => trivial
  | undefined => trivial
  | copy i =>
    change ((Option.map (·.2.2) s.defs[i]?).getD Meth.undefined).Scoped
    cases hm : Option.map (·.2.2) s.defs[i]? with
    | none => trivial
    | some m => exact hs.meth hm

/-- A call of a stored block in any frame. -/
theorem keeps_callStored (p : Nat) (a : CallArgs V) (fr : Proc V Op → Frame V)
    (lambda : Proc V Op → Bool) :
    Keeps .outside (withProc R p (fun q => ev (.callProcIn q a (fr q) (lambda q)))) :=
  keeps_withProc R (fun q hq => hev _ (.callProcIn q _ _ _) hq) p

theorem keeps_runNative (t : Native V M Op α) : Keeps c (runNative R ev t) := by
  induction t with
  | done r m =>
    rw [runNative]
    refine keeps_bind (keeps_mem c _) (fun _ => ?_)
    cases r with
    | ok a => exact keeps_pure c a
    | error e => exact keeps_signal trivial
  | callProc p a m undo next ih =>
    rw [runNative]
    refine keeps_bind (keeps_mem c _) (fun _ => ?_)
    refine Ensures.attempt_bind (hev c (.callProc p a) trivial) (fun r hr => ?_)
    cases r with
    | ok v => exact ensures_get_bind (fun s _ => ih v s.world)
    | error e => exact keeps_bind (keeps_mem c _) (fun _ => keeps_signal hr.allowed)
  | callProcSelf p self_ target cref args m next ih =>
    rw [runNative]
    refine keeps_bind (keeps_mem c _) (fun _ => ?_)
    refine keeps_bind (keeps_of_outside (keeps_callStored R hev p _ _ _)) (fun v => ?_)
    exact ensures_get_bind (fun s _ => ih v s.world)
  | call recv name a fcall caller m next ih =>
    rw [runNative]
    refine keeps_bind (keeps_mem c _) (fun _ => keeps_bind (hev c _ trivial) (fun v => ?_))
    exact ensures_get_bind (fun s _ => ih v s.world)
  | invoke i owner recv name a m next ih =>
    rw [runNative]
    refine keeps_bind (keeps_mem c _) (fun _ => ensures_get_bind (fun s hs => ?_))
    refine keeps_bind (hev c _ (scoped_meth hs (.copy i))) (fun v => ?_)
    exact ensures_get_bind (fun s _ => ih v s.world)
  | newProc recv name m next ih =>
    rw [runNative]
    refine keeps_bind (keeps_mem c _) (fun _ => ?_)
    refine keeps_bind (keeps_ownProc recv name _) (fun p => ?_)
    exact ensures_get_bind (fun s _ => ih p s.world)
  | define target name d m next ih =>
    rw [runNative]
    refine keeps_bind (keeps_mem c _) (fun _ => ensures_get_bind (fun s hs => ?_))
    refine keeps_bind (keeps_define target name (scoped_meth hs d)) (fun _ => ?_)
    exact ensures_get_bind (fun s _ => ih s.world)
  | remove target name m next ih =>
    rw [runNative]
    refine keeps_bind (keeps_mem c _) (fun _ => ?_)
    refine keeps_bind (keeps_modify c (fun _ hs => hs.remove _ target name)) (fun _ => ?_)
    exact ensures_get_bind (fun s _ => ih s.world)
  | loadFile file m next ih =>
    rw [runNative]
    refine keeps_bind (keeps_mem c _) (fun _ => keeps_bind (hev c _ trivial) (fun v => ?_))
    exact ensures_get_bind (fun s _ => ih v s.world)
  | evalString self_ target cref file m next ih =>
    rw [runNative]
    refine keeps_bind (keeps_mem c _) (fun _ => ensures_freshId_bind (fun id _ => ?_))
    refine ensures_newScope_bind (fun sc => keeps_bind (hev c _ trivial) (fun v => ?_))
    exact ensures_get_bind (fun s _ => ih v s.world)

theorem keeps_builtin (f : World V M Op → Native V M Op α) : Keeps c (builtin R ev f) :=
  ensures_get_bind (fun s _ => keeps_runNative R hev (f s.world))

theorem keeps_callV (recv : V) (name : String) (args : List V) :
    Keeps c (callV ev recv name args) := hev c _ trivial

theorem keeps_evalOpt {n : Option (Node V Op)} (hn : scopedOpt n c = true) (fr : Frame V)
    (sc : Nat) : Keeps c (evalOpt R ev n fr sc) := by
  cases n with
  | none => exact keeps_pure c _
  | some n => exact hev c _ hn

theorem keeps_splatEntries (v : V) : Keeps c (splatEntries R ev v) := by
  refine ensures_get_bind (fun s _ => ?_)
  split
  · exact keeps_pure c _
  · split
    · exact keeps_pure c _
    · refine keeps_bind (keeps_callV hev v "to_h" []) (fun h => ?_)
      exact ensures_get_bind (fun s _ => keeps_pure c _)

theorem keeps_evalPair {p : Pair V Op} (hp : p.scoped c = true) (fr : Frame V) (sc : Nat) :
    Keeps c (evalPair R ev p fr sc) := by
  cases p with
  | pair key value =>
    obtain ⟨hk, hv⟩ : key.scoped c = true ∧ value.scoped c = true :=
      Bool.and_eq_true_iff.mp hp
    exact keeps_bind (hev c _ hk) (fun _ => keeps_bind (hev c _ hv) (fun _ => keeps_pure c _))
  | kwsplat e =>
    have he : e.scoped c = true := hp
    exact keeps_bind (hev c _ he) (fun v => keeps_splatEntries R hev v)

theorem keeps_evalPairs {ps : List (Pair V Op)} (hps : scopedPairs ps c = true) (fr : Frame V)
    (sc : Nat) : Keeps c (evalPairs R ev ps fr sc) := by
  induction ps with
  | nil => exact keeps_pure c _
  | cons p ps ih =>
    obtain ⟨hp, hps⟩ : p.scoped c = true ∧ scopedPairs ps c = true :=
      Bool.and_eq_true_iff.mp hps
    exact keeps_bind (keeps_evalPair R hev hp fr sc)
      (fun _ => keeps_bind (ih hps) (fun _ => keeps_pure c _))

theorem keeps_evalHash {ps : List (Pair V Op)} (hps : scopedPairs ps c = true) (fr : Frame V)
    (sc : Nat) : Keeps c (evalHash R ev ps fr sc) :=
  keeps_bind (keeps_evalPairs R hev hps fr sc) (fun _ => keeps_alloc c _)

theorem keeps_toProc (v : V) (fr : Frame V) : Keeps c (toProc R ev v fr) := by
  unfold toProc
  split
  · exact keeps_pure c _
  · exact keeps_pure c _
  · exact keeps_bind (keeps_ownProc _ _ fr) (fun _ => keeps_pure c _)
  · exact keeps_bind (keeps_ownProc _ _ fr) (fun _ => keeps_pure c _)
  · refine keeps_bind (keeps_callV hev v "to_proc" []) (fun r => ?_)
    split
    · exact keeps_pure c _
    · exact keeps_error R _ _

theorem keeps_passed {e : Option (Node V Op)} (he : scopedOpt e c = true) (fr : Frame V)
    (sc : Nat) : Keeps c (passed R ev e fr sc) := by
  cases e with
  | none => exact keeps_pure c _
  | some n => exact hev c _ he

theorem keeps_evalArg {n : Node V Op} (hn : n.scoped c = true) (a : CallArgs V) (fr : Frame V)
    (sc : Nat) : Keeps c (evalArg R ev a n fr sc) := by
  unfold evalArg
  split
  · next e =>
    have he : scopedOpt e c = true := hn
    refine keeps_bind (keeps_evalOpt R hev he fr sc) (fun v => ?_)
    exact keeps_bind (keeps_builtin R hev _) (fun _ => keeps_pure c _)
  · next pairs =>
    have hpairs : scopedPairs pairs c = true := hn
    exact keeps_bind (keeps_evalHash R hev hpairs fr sc) (fun _ => keeps_pure c _)
  · next e =>
    have he : scopedOpt e c = true := hn
    refine keeps_bind (keeps_passed R hev he fr sc) (fun v => ?_)
    exact keeps_bind (keeps_toProc R hev v fr) (fun _ => keeps_pure c _)
  · exact ensures_get_bind (fun s _ => keeps_pure c _)
  · exact keeps_bind (hev c _ hn) (fun _ => keeps_pure c _)

theorem keeps_evalArgsFrom {ns : List (Node V Op)} (hns : scopedAll ns c = true)
    (a : CallArgs V) (fr : Frame V) (sc : Nat) : Keeps c (evalArgsFrom R ev a ns fr sc) := by
  induction ns generalizing a with
  | nil => exact keeps_pure c a
  | cons n ns ih =>
    obtain ⟨hn, hns⟩ := scopedAll_cons.mp hns
    exact keeps_bind (keeps_evalArg R hev hn a fr sc) (fun a => ih hns a)

theorem keeps_evalArgs {ns : List (Node V Op)} (hns : scopedAll ns c = true) (fr : Frame V)
    (sc : Nat) : Keeps c (evalArgs R ev ns fr sc) :=
  keeps_bind (keeps_evalArgsFrom R hev hns _ fr sc)
    (fun _ => ensures_get_bind (fun _ _ => keeps_pure c _))

/-! ## Assignments -/

omit hev in
theorem keeps_valuesOf (v : V) : Keeps c (valuesOf R v : Eval V M Op (List V)) :=
  ensures_get_bind (fun _ _ => keeps_pure c _)

omit hev in
theorem keeps_shares (items : List (Target V Op)) (values : List V) :
    Keeps c (shares R items values : Eval V M Op (List V)) := by
  unfold shares
  dsimp only
  split
  · exact keeps_bind (keeps_alloc c _) (fun _ => keeps_pure c _)
  · exact keeps_pure c _

omit hev in
theorem keeps_procargShares (items : List (Target V Op)) (v : V) :
    Keeps c (procargShares R items v : Eval V M Op (List V)) := by
  unfold procargShares
  split
  · exact keeps_pure c _
  · exact keeps_bind (keeps_valuesOf R v) (fun values => keeps_shares R items values)

set_option linter.unusedSectionVars false in
mutual

theorem keeps_assign (fr : Frame V) (sc : Nat) : ∀ (t : Target V Op), t.scoped c = true →
    ∀ v, Keeps c (assign R ev fr sc t v)
  | .lvar name, _, v => keeps_setVar sc name v
  | .var x, _, _ => keeps_bind (keeps_builtin R hev _) (fun _ => keeps_pure c ())
  | .const scope x, ht, _ => by
    have hscope : scope.scoped c = true := ht
    refine keeps_bind (hev c _ hscope) (fun m => ?_)
    exact keeps_bind (keeps_builtin R hev _) (fun _ => keeps_pure c ())
  | .index recv indexes, ht, _ => by
    obtain ⟨hrecv, hindexes⟩ : recv.scoped c = true ∧ scopedAll indexes c = true :=
      Bool.and_eq_true_iff.mp ht
    refine keeps_bind (hev c _ hrecv) (fun r => ?_)
    refine keeps_bind (keeps_evalArgs R hev hindexes fr sc) (fun a => ?_)
    exact keeps_bind (hev c _ trivial) (fun _ => keeps_pure c ())
  | .attr recv name, ht, v =>
    keeps_bind (keeps_evalOpt R hev ht fr sc) (fun r =>
      keeps_bind (keeps_callV hev r _ _) (fun _ => keeps_pure c ()))
  | .mlhs items, ht, v =>
    keeps_bind (keeps_valuesOf R v) (fun _ => keeps_bind (keeps_shares R items _) (fun vs =>
      keeps_assignAll fr sc items ht vs))
  | .procarg0 items, ht, v =>
    keeps_bind (keeps_procargShares R items v) (fun vs =>
      keeps_assignAll fr sc items ht vs)
  | .splat target, ht, v =>
    keeps_assignOpt fr sc target ht v
  | .arg name, _, v => keeps_declare sc name v
  | .restarg none, _, _ => keeps_pure c ()
  | .restarg (some name), _, v => keeps_declare sc name v

theorem keeps_assignOpt (fr : Frame V) (sc : Nat) : ∀ (t : Option (Target V Op)),
    scopedTarget t c = true → ∀ v, Keeps c (assignOpt R ev fr sc t v)
  | none, _, _ => keeps_pure c ()
  | some t, ht, v => keeps_assign fr sc t ht v

theorem keeps_assignAll (fr : Frame V) (sc : Nat) : ∀ (ts : List (Target V Op)),
    scopedTargets ts c = true → ∀ vs, Keeps c (assignAll R ev fr sc ts vs)
  | [], _, vs => keeps_pure c ()
  | t :: ts, hts, vs => by
    obtain ⟨ht, hts⟩ : t.scoped c = true ∧ scopedTargets ts c = true :=
      Bool.and_eq_true_iff.mp hts
    exact keeps_bind (keeps_assign fr sc t ht _) (fun _ => keeps_assignAll fr sc ts hts _)

end

/-- The operands of a place come from a scoped target. -/
def Place.Scoped (c : Ctx) : Place V Op → Prop
  | .other t => t.scoped c = true
  | .index _ _ | .attr _ _ => True

end Step

end PangeaOperator.RubyEval
