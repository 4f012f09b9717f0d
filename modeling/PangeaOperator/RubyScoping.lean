import PangeaOperator.RubyCalls

/-!
# Where the signals of the evaluator go

A `next` or a `break` belongs to the loop or the block around it, a `retry` to the rescue clause
around it. A node is scoped if each of them has its owner, within the same method or block. The
signals that leave a scoped node are those that its surroundings take, as long as all that is
stored is scoped.
-/

namespace PangeaOperator.RubyEval

open LavaRuby (Param Slot)

variable {V M Op α β : Type}

/-- Whether a loop or a block takes `next` and `break`, and a rescue clause `retry`. -/
structure Ctx where
  loop : Bool
  rescue : Bool
  deriving DecidableEq, Repr

namespace Ctx

def outside : Ctx := ⟨false, false⟩

def inBlock : Ctx := ⟨true, false⟩

def inLoop (c : Ctx) : Ctx := { c with loop := true }

def inRescue (c : Ctx) : Ctx := { c with rescue := true }

end Ctx

mutual

/-- The condition of a loop is outside of it, as are the classes of a rescue clause; defaults and
patterns of parameters are outside of the method or block. -/
def Node.scoped : Node V Op → Ctx → Bool
  | .value _, _ | .self_, _ | .lvar _, _ | .zsuper, _ | .lambda, _ | .definedYield, _
  | .forwardedArgs, _ => true
  | .retry, c => c.rescue
  | .lvasgn _ e, c | .splat e, c | .blockPass e, c | .definedCall e _, c => scopedOpt e c
  | .definedConst e, c => e.scoped c
  | .op _ ns, c | .begin_ ns, c | .return_ ns, c | .yield_ ns, c | .super_ ns, c | .undef ns, c =>
    scopedAll ns c
  | .next_ ns, c | .break_ ns, c => c.loop && scopedAll ns c
  | .hash ps, c | .kwargs ps, c => scopedPairs ps c
  | .and_ l r, c | .or_ l r, c | .alias_ l r, c => l.scoped c && r.scoped c
  | .if_ e t f, c => e.scoped c && scopedOpt t c && scopedOpt f c
  | .while_ _ e body, c => e.scoped c && scopedOpt body c.inLoop
  | .whilePost _ e body, c => e.scoped c && body.scoped c.inLoop
  | .for_ t e body, c => t.scoped c && e.scoped c && scopedOpt body c.inLoop
  | .case_ e ws els, c => scopedOpt e c && scopedWhens ws c && scopedOpt els c
  | .send _ recv _ args, c => scopedOpt recv c && scopedAll args c
  | .block call _ formals body, c =>
    call.scoped c && scopedParams formals && scopedOpt body .inBlock
  | .index recv ns, c => recv.scoped c && scopedAll ns c
  | .indexAsgn recv ns e, c => recv.scoped c && scopedAll ns c && scopedOpt e c
  | .opAsgn t _ e, c | .logicAsgn _ t e, c => t.scoped c && e.scoped c
  | .masgn ts e, c => scopedTargets ts c && e.scoped c
  | .def_ _ formals body, _ => scopedParams formals && scopedOpt body .outside
  | .defs e _ formals body, c => e.scoped c && scopedParams formals && scopedOpt body .outside
  | .class_ scope _ sup body, c => scopedOpt scope c && scopedOpt sup c && scopedOpt body c
  | .module_ scope _ body, c => scopedOpt scope c && scopedOpt body c
  | .sclass e body, c => e.scoped c && scopedOpt body c
  | .rescue body bodies else_, c =>
    scopedOpt body c && scopedBodies bodies c && scopedOpt else_ c
  | .ensure body ens, c => scopedOpt body c && scopedOpt ens c

def scopedOpt : Option (Node V Op) → Ctx → Bool
  | none, _ => true
  | some n, c => n.scoped c

def scopedAll : List (Node V Op) → Ctx → Bool
  | [], _ => true
  | n :: ns, c => n.scoped c && scopedAll ns c

def Pair.scoped : Pair V Op → Ctx → Bool
  | .pair k v, c => k.scoped c && v.scoped c
  | .kwsplat e, c => e.scoped c

def scopedPairs : List (Pair V Op) → Ctx → Bool
  | [], _ => true
  | p :: ps, c => p.scoped c && scopedPairs ps c

def When.scoped : When V Op → Ctx → Bool
  | .mk patterns body, c => scopedAll patterns c && scopedOpt body c

def scopedWhens : List (When V Op) → Ctx → Bool
  | [], _ => true
  | w :: ws, c => w.scoped c && scopedWhens ws c

def RescueBody.scoped : RescueBody V Op → Ctx → Bool
  | .mk excList excVar body, c =>
    excList.scoped c && scopedTarget excVar c && scopedOpt body c.inRescue

def scopedBodies : List (RescueBody V Op) → Ctx → Bool
  | [], _ => true
  | b :: bs, c => b.scoped c && scopedBodies bs c

def ExcList.scoped : ExcList V Op → Ctx → Bool
  | .none, _ => true
  | .array ns, c => scopedAll ns c
  | .other e, c => e.scoped c

def Target.scoped : Target V Op → Ctx → Bool
  | .lvar _, _ | .var _, _ | .arg _, _ | .restarg _, _ => true
  | .const scope _, c => scope.scoped c
  | .index recv ns, c => recv.scoped c && scopedAll ns c
  | .attr recv _, c => scopedOpt recv c
  | .mlhs ts, c | .procarg0 ts, c => scopedTargets ts c
  | .splat t, c => scopedTarget t c

def scopedTarget : Option (Target V Op) → Ctx → Bool
  | none, _ => true
  | some t, c => t.scoped c

def scopedTargets : List (Target V Op) → Ctx → Bool
  | [], _ => true
  | t :: ts, c => t.scoped c && scopedTargets ts c

def Formal.scoped : Formal V Op → Bool
  | .mk _ items dflt => scopedTargets items .outside && scopedOpt dflt .outside

def scopedFormals : List (Formal V Op) → Bool
  | [] => true
  | f :: fs => f.scoped && scopedFormals fs

def scopedParams : Option (List (Formal V Op)) → Bool
  | none => true
  | some fs => scopedFormals fs

end

theorem scopedAll_cons {n : Node V Op} {ns : List (Node V Op)} {c : Ctx} :
    scopedAll (n :: ns) c = true ↔ n.scoped c = true ∧ scopedAll ns c = true :=
  Bool.and_eq_true_iff

/-- A signal that these surroundings take. Nothing here makes a `stopIter`. -/
def Ctrl.Allowed (c : Ctx) : Ctrl V → Prop
  | .next_ _ => c.loop = true
  | .break_ _ block => block = 0 → c.loop = true
  | .retry => c.rescue = true
  | .stopIter _ => False
  | .raise _ | .return_ _ _ | .throw_ _ _ => True

def Ends (c : Ctx) (r : Except (Ctrl V) α) : Prop := ∀ e, r = .error e → e.Allowed c

theorem ends_ok {c : Ctx} (a : α) : Ends c (.ok a : Except (Ctrl V) α) := by
  intro e he
  cases he

theorem ends_error {c : Ctx} {e : Ctrl V} (h : e.Allowed c) :
    Ends c (.error e : Except (Ctrl V) α) := by
  rintro e' he
  cases he
  exact h

theorem Ends.allowed {c : Ctx} {e : Ctrl V} (h : Ends c (.error e : Except (Ctrl V) α)) :
    e.Allowed c := h e rfl

theorem allowed_of_outside {c : Ctx} {e : Ctrl V} (h : e.Allowed .outside) : e.Allowed c := by
  cases e with
  | raise e => trivial
  | return_ v frame => trivial
  | throw_ tag v => trivial
  | stopIter v => exact h
  | break_ v block => exact fun hb => nomatch h hb
  | next_ v => exact nomatch h
  | retry => exact nomatch h

/-! ## What is stored -/

def ProcBody.Scoped : ProcBody V Op → Prop
  | .ast formals body _ => scopedParams formals = true ∧ scopedOpt body .inBlock = true
  | .symToProc _ | .method _ _ => True

def Proc.Scoped (p : Proc V Op) : Prop := 0 < p.id ∧ p.body.Scoped

def Meth.Scoped : Meth V Op → Prop
  | .user um => scopedParams um.formals = true ∧ scopedOpt um.body .outside = true
  | .proc _ | .native _ | .undefined => True

/-- A text that is not read, is empty, or is scoped. -/
def ScopedText (t : Text V Op) : Prop := ∀ ast, t = .ok (some ast) → ast.scoped .outside = true

/-- The identity zero marks a `break` that has not met its block yet. -/
structure Store.Scoped (s : Store V M Op) : Prop where
  procs : ∀ p ∈ s.procs, p.Scoped
  defs : ∀ d ∈ s.defs, d.2.2.Scoped
  ids : 0 < s.nextId
  texts : ∀ t ∈ s.texts, ScopedText t

namespace Store.Scoped

variable {s : Store V M Op}

theorem addProc (h : s.Scoped) {p : Proc V Op} (hp : p.Scoped) : (s.addProc p).2.Scoped where
  procs q hq := by
    rcases List.mem_append.mp hq with hq | hq
    · exact h.procs q hq
    · exact List.mem_singleton.mp hq ▸ hp
  defs := h.defs
  ids := h.ids
  texts := h.texts

theorem define (h : s.Scoped) (target : V) (name : String) {m : Meth V Op} (hm : m.Scoped) :
    (s.define target name m).Scoped where
  procs := h.procs
  defs d hd := by
    rcases List.mem_append.mp hd with hd | hd
    · exact h.defs d hd
    · exact List.mem_singleton.mp hd ▸ hm
  ids := h.ids
  texts := h.texts

theorem remove (h : s.Scoped) (same : V → V → Bool) (target : V) (name : String) :
    (s.remove same target name).Scoped where
  procs := h.procs
  defs d hd := h.defs d (List.mem_of_mem_filter hd)
  ids := h.ids
  texts := h.texts

theorem meth (h : s.Scoped) {i : Nat} {m : Meth V Op} (hm : (s.defs[i]?).map (·.2.2) = some m) :
    m.Scoped := by
  obtain ⟨d, hd, rfl⟩ := Option.map_eq_some_iff.mp hm
  exact h.defs d (List.mem_of_getElem? hd)

end Store.Scoped

/-! ## Computations whose signals are taken -/

abbrev Keeps (c : Ctx) (m : Eval V M Op α) : Prop := Ensures Store.Scoped m (Ends c)

section Rules

variable {c : Ctx} {m : Eval V M Op α} {f : α → Eval V M Op β}

theorem keeps_pure (c : Ctx) (a : α) : Keeps c (pure a : Eval V M Op α) :=
  ensures_pure (ends_ok a)

theorem keeps_signal {e : Ctrl V} (h : e.Allowed c) : Keeps c (Comp.signal e : Eval V M Op α) :=
  ensures_signal (ends_error h)

theorem keeps_modify (c : Ctx) {g : Store V M Op → Store V M Op}
    (hg : ∀ s, s.Scoped → (g s).Scoped) :
    Keeps c (Comp.modify g : Eval V M Op Unit) := ensures_modify hg (ends_ok ())

theorem keeps_bind (hm : Keeps c m) (hf : ∀ a, Keeps c (f a)) : Keeps c (m >>= f) :=
  hm.bind (fun a _ => hf a) (fun _ he => ends_error he.allowed)

theorem keeps_of_outside (h : Keeps .outside m) : Keeps c m :=
  h.mono (fun _ hr e he => allowed_of_outside (hr e he))

/-- What the builtins keep is not looked at. -/
theorem keeps_mem (c : Ctx) (g : Store V M Op → M) :
    Keeps c (Comp.modify (fun s => { s with mem := g s }) : Eval V M Op Unit) :=
  keeps_modify c (fun _ hs => ⟨hs.procs, hs.defs, hs.ids, hs.texts⟩)

theorem keeps_alloc (c : Ctx) (g : M → α × M) : Keeps c (alloc g : Eval V M Op α) :=
  ensures_get_bind (fun s _ =>
    keeps_bind (keeps_mem c (fun _ => (g s.mem).2)) (fun _ => keeps_pure c _))

theorem keeps_error (R : Ruby V M Op) (cls message : String) :
    Keeps c (error R cls message : Eval V M Op α) :=
  keeps_bind (keeps_alloc c _) (fun _ => keeps_signal trivial)

/-- A new scope, and what follows in it. -/
theorem ensures_newScope_bind {parent : Option Nat} {f : Nat → Eval V M Op β}
    {post : Except (Ctrl V) β → Prop} (hf : ∀ sc, Ensures Store.Scoped (f sc) post) :
    Ensures Store.Scoped (newScope parent >>= f) post := by
  have hnew : Ensures Store.Scoped (newScope parent : Eval V M Op Nat)
      (fun r => ∃ sc, r = .ok sc ∧ True) :=
    ensures_update (fun _ hs => ⟨hs.procs, hs.defs, hs.ids, hs.texts⟩)
      (fun _ _ => ⟨_, rfl, trivial⟩)
  exact hnew.bind_ok (fun sc _ => hf sc)

theorem keeps_declare (sc : Nat) (name : String) (v : V) :
    Keeps c (declare sc name v : Eval V M Op Unit) :=
  keeps_modify c (fun _ hs => ⟨hs.procs, hs.defs, hs.ids, hs.texts⟩)

theorem keeps_setVar (sc : Nat) (name : String) (v : V) :
    Keeps c (setVar sc name v : Eval V M Op Unit) :=
  keeps_modify c (fun _ hs => ⟨hs.procs, hs.defs, hs.ids, hs.texts⟩)

theorem keeps_define (target : V) (name : String) {m : Meth V Op} (hm : m.Scoped) :
    Keeps c (define target name m : Eval V M Op Unit) :=
  keeps_modify c (fun _ hs => hs.define target name hm)

/-- A new identity is never that of an unbound `break`. -/
theorem ensures_freshId_bind {f : Nat → Eval V M Op β} {post : Except (Ctrl V) β → Prop}
    (hf : ∀ id, 0 < id → Ensures Store.Scoped (f id) post) :
    Ensures Store.Scoped (freshId >>= f) post := by
  have hfresh : Ensures Store.Scoped (freshId : Eval V M Op Nat)
      (fun r => ∃ id, r = .ok id ∧ 0 < id) :=
    ensures_update (fun _ hs => ⟨hs.procs, hs.defs, Nat.succ_pos _, hs.texts⟩)
      (fun _ hs => ⟨_, rfl, hs.ids⟩)
  exact hfresh.bind_ok hf

theorem keeps_addProc {p : Proc V Op} (hp : p.Scoped) : Keeps c (addProc p : Eval V M Op Nat) :=
  ensures_update (fun _ hs => hs.addProc hp) (fun _ _ => ends_ok _)

theorem keeps_ownProc (recv : Option V) (name : String) (fr : Frame V) :
    Keeps c (ownProc recv name fr : Eval V M Op Nat) := by
  refine ensures_newScope_bind (fun sc => ensures_freshId_bind (fun id hid => ?_))
  cases recv with
  | none => exact keeps_addProc ⟨hid, trivial⟩
  | some r => exact keeps_addProc ⟨hid, trivial⟩

theorem keeps_withProc (R : Ruby V M Op) {f : Proc V Op → Eval V M Op V}
    (hf : ∀ p : Proc V Op, p.Scoped → Keeps c (f p)) (p : Nat) : Keeps c (withProc R p f) := by
  refine ensures_get_bind (fun s hs => ?_)
  split
  · next q hq => exact hf q (hs.procs q (List.mem_of_getElem? hq))
  · exact keeps_error R _ _

end Rules

/-- A task that brings no unscoped code with it. -/
def Task.Fits (c : Ctx) : Task V M Op → Prop
  | .node n _ _ => n.scoped c = true
  | .callProcIn p _ _ _ => p.Scoped
  | .invoke m _ _ _ _ _ => m.Scoped
  | .callProc _ _ | .call _ _ _ _ _ | .callSuper _ _ | .loop _ _ | .loadFile _
  | .evalString _ _ => True

end PangeaOperator.RubyEval
