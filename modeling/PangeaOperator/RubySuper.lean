import PangeaOperator.RubyModules
import PangeaOperator.Lib.Succession

/-!
# Chains of `super`

`call_super` looks up the receiver's chain anew, finds the first place of the module that
owns the running method, and takes the next entry behind it. Where every entry calls
`super`, this runs each of them once if no module with an entry is in the chain twice, and
never ends otherwise. No bound of the interpreter counts these calls.
-/

namespace PangeaOperator.LavaRuby

variable {β : Type}

/-- A running method: the name of its frame, and where it was found. -/
structure Running (β : Type) where
  name : String
  me : Meth β
  found : Nat

namespace Heap

variable (h : Heap β)

/-- The loop of `find_super`, and whether it is past the owner. -/
def superIn (owner : Nat) (name : String) : Bool → List Nat → Option (Meth β × Nat)
  | _, [] => none
  | true, m :: rest =>
    match h.method m name with
    | some me => some (me, m)
    | none => superIn owner name true rest
  | false, m :: rest => superIn owner name (m == owner) rest

/-- The owner and the name of the frame are those of a `def`, or of the place of a proc; a
native method has no frame. -/
def callSuper (chain : List Nat) (r : Running β) : Option (Running β) :=
  match r.me with
  | .user um => (h.superIn um.owner um.name false chain).map (fun p => ⟨um.name, p.1, p.2⟩)
  | .proc _ _ => (h.superIn r.found r.name false chain).map (fun p => ⟨r.name, p.1, p.2⟩)
  | .undefined | .native _ => none

/-- The modules whose entries run, at most so many. -/
def visits (chain : List Nat) : Nat → Option (Running β) → List Nat
  | 0, _ => []
  | _ + 1, none => []
  | n + 1, some r => r.found :: visits chain n (h.callSuper chain r)

def call (chain : List Nat) (name : String) : Option (Running β) :=
  (h.findIn name chain).map (fun p => ⟨name, p.1, p.2⟩)

def definers (name : String) (chain : List Nat) : List Nat :=
  chain.filter (fun m => (h.method m name).isSome)

end Heap

/-- Written by `def` or `define_method` in that module, under that name. -/
def Meth.atHome (name : String) (m : Nat) : Meth β → Bool
  | .user um => um.name == name && um.owner == m
  | .proc _ _ => true
  | .undefined | .native _ => false

section Visits

variable {h : Heap β} {name : String} {chain : List Nat}

/-- The method under that name in that module. -/
def Heap.runningAt (h : Heap β) (name : String) (m : Nat) : Option (Running β) :=
  (h.method m name).map (fun me => ⟨name, me, m⟩)

theorem superIn_true (owner : Nat) (l : List Nat) :
    (h.superIn owner name true l).map (fun p => (⟨name, p.1, p.2⟩ : Running β)) =
      (h.definers name l).head?.bind (h.runningAt name) := by
  induction l with
  | nil => rfl
  | cons m l ih =>
    cases hm : h.method m name with
    | none => simpa [Heap.superIn, Heap.definers, hm] using ih
    | some me => simp [Heap.superIn, Heap.definers, Heap.runningAt, hm]

theorem superIn_false {owner : Nat} (howner : (h.method owner name).isSome) (l : List Nat) :
    (h.superIn owner name false l).map (fun p => (⟨name, p.1, p.2⟩ : Running β)) =
      (successor (h.definers name l) owner).bind (h.runningAt name) := by
  induction l with
  | nil => rfl
  | cons m l ih =>
    by_cases heq : m = owner
    · subst heq
      have htrue : (h.superIn m name true l).map (fun p => (⟨name, p.1, p.2⟩ : Running β)) =
          (h.definers name l).head?.bind (h.runningAt name) := superIn_true m l
      simpa [Heap.superIn, Heap.definers, howner, successor] using htrue
    · have hne : (m == owner) = false := beq_eq_false_iff_ne.mpr heq
      cases hm : h.method m name with
      | none => simpa [Heap.superIn, Heap.definers, hm, hne] using ih
      | some me => simpa [Heap.superIn, Heap.definers, hm, hne, successor, heq] using ih

theorem callSuper_eq {m : Nat} {me : Meth β} (hm : h.method m name = some me)
    (hhome : me.atHome name m = true) (chain : List Nat) :
    h.callSuper chain ⟨name, me, m⟩ =
      (successor (h.definers name chain) m).bind (h.runningAt name) := by
  have hsome : (h.method m name).isSome := by simp [hm]
  cases me with
  | user um =>
    obtain ⟨hname, howner⟩ : um.name = name ∧ um.owner = m := by
      simpa [Meth.atHome] using hhome
    simp only [Heap.callSuper, hname, howner]
    exact superIn_false hsome chain
  | proc body owner => exact superIn_false hsome chain
  | undefined => cases hhome
  | native n => cases hhome

variable (hhome : ∀ m ∈ chain, ∀ me, h.method m name = some me → me.atHome name m = true)
include hhome

theorem call_eq : h.call chain name = (h.definers name chain).head?.bind (h.runningAt name) := by
  have hdefined : ∀ m ∈ chain, ∀ me, h.method m name = some me → me.isUndefined = false := by
    intro m hm me hme
    have := hhome m hm me hme
    cases me <;> first | rfl | cases this
  clear hhome
  induction chain with
  | nil => rfl
  | cons m l ih =>
    cases hm : h.method m name with
    | none =>
      have hrest := ih (fun x hx => hdefined x (List.mem_cons_of_mem m hx))
      simpa [Heap.call, Heap.findIn, Heap.definers, hm] using hrest
    | some me =>
      have hnot := hdefined m List.mem_cons_self me hm
      simp [Heap.call, Heap.findIn, Heap.definers, Heap.runningAt, hm, hnot]

/-- The entries that run are those on the walk through the modules that have one. -/
theorem visits_eq_walk (n : Nat) {m : Option Nat}
    (hm : ∀ x, m = some x → x ∈ h.definers name chain) :
    h.visits chain n (m.bind (h.runningAt name)) = walk (h.definers name chain) n m := by
  induction n generalizing m with
  | zero => rfl
  | succ n ih =>
    cases m with
    | none => rfl
    | some x =>
      obtain ⟨hx, hsome⟩ := List.mem_filter.mp (hm x rfl)
      obtain ⟨me, hme⟩ := Option.isSome_iff_exists.mp hsome
      simp only [Option.bind_some, Heap.runningAt, hme, Option.map_some, Heap.visits, walk]
      rw [callSuper_eq hme (hhome x hx me hme), ih (fun y hy => mem_of_successor hy)]

theorem visits_call (n : Nat) :
    h.visits chain n (h.call chain name) =
      walk (h.definers name chain) n (h.definers name chain).head? := by
  rw [call_eq hhome]
  exact visits_eq_walk hhome n (fun x hx => List.mem_of_head? hx)

end Visits

/-- A core value, or an object without a singleton. -/
def Heap.plain (h : Heap β) : Value → Bool
  | .core _ => true
  | .obj p => (h.objects p).any (·.singleton.isNone)
  | .mod _ => false

theorem lookupChain_nodup {h : Heap β} {stack : Nat} {v : Value} (hv : h.plain v = true)
    {chain : List Nat} (hchain : h.lookupChainUncached stack v = some chain) : chain.Nodup := by
  cases v with
  | core c => exact ancestors_nodup hchain
  | mod m => cases hv
  | obj p =>
    cases ho : h.objects p with
    | none => simp [Heap.plain, ho] at hv
    | some o =>
      obtain ⟨cls, singleton⟩ := o
      cases singleton with
      | none =>
        simp only [Heap.lookupChainUncached, ho, Option.bind_eq_bind, Option.bind_some] at hchain
        exact ancestors_nodup hchain
      | some s => simp [Heap.plain, ho] at hv

/-- Where every entry of the receiver's chain for a name was written there under that name, by
`def` or `define_method`, and calls `super`: each runs once, in the order of the chain, if no
module with an entry is in it twice, as for core values and objects without a singleton; and the
calls never end if one is. A class may inherit a module twice, from the singleton of its
superclass and from `Object`. -/
theorem super_runs {h : Heap β} {stack : Nat} {v : Value} {chain : List Nat} {name : String}
    (hchain : h.lookupChainUncached stack v = some chain)
    (hhome : ∀ m ∈ chain, ∀ me, h.method m name = some me → me.atHome name m = true) :
    (h.plain v = true → (h.definers name chain).Nodup) ∧
    ((h.definers name chain).Nodup → ∀ n,
      h.visits chain n (h.call chain name) = (h.definers name chain).take n) ∧
    (¬(h.definers name chain).Nodup → ∀ n,
      (h.visits chain n (h.call chain name)).length = n) := by
  refine ⟨fun hv => (lookupChain_nodup hv hchain).filter _, fun hn n => ?_, fun hn n => ?_⟩
  · rw [visits_call hhome, walk_of_nodup hn]
  · rw [visits_call hhome, length_walk_of_not_nodup hn]

/-- A class with a mixin, and two of its objects, one extended with the mixin again. -/
def greeters : Heap Nat where
  nextId := 100
  nextPtr := 2
  modules
    | 1 => some ⟨true, none, fun _ => none, [], [], none⟩
    | 2 => some ⟨true, some 1, fun _ => none, [], [], none⟩
    | 10 => some ⟨false, none, fun n => if n = "greet" then some (.user ⟨n, 10, 0⟩) else none,
        [], [], none⟩
    | 11 => some ⟨true, some 2, fun n => if n = "greet" then some (.user ⟨n, 11, 1⟩) else none,
        [10], [], none⟩
    | 12 => some ⟨true, some 11, fun _ => none, [10], [], none⟩
    | _ => none
  objects
    | 0 => some ⟨11, none⟩
    | 1 => some ⟨11, some 12⟩
    | _ => none
  moduleFunction := fun _ => false
  classes := fun _ => 2

theorem super_runs_greeters :
    greeters.visits [11, 10, 2, 1] 9 (greeters.call [11, 10, 2, 1] "greet") = [11, 10] ∧
    ∀ n, (greeters.visits [12, 10, 11, 10, 2, 1] n
      (greeters.call [12, 10, 11, 10, 2, 1] "greet")).length = n := by
  have hhome : ∀ m ∈ [12, 10, 11, 10, 2, 1], ∀ me, greeters.method m "greet" = some me →
      me.atHome "greet" m = true := by
    decide +kernel
  have hplain := super_runs (v := .obj 0)
    (show greeters.lookupChainUncached 9 (.obj 0) = some [11, 10, 2, 1] by decide +kernel)
    (fun m hm => hhome m (List.mem_cons_of_mem 12 (List.mem_cons_of_mem 10 hm)))
  have hextended := super_runs (v := .obj 1)
    (show greeters.lookupChainUncached 9 (.obj 1) = some [12, 10, 11, 10, 2, 1] by decide +kernel)
    hhome
  exact ⟨hplain.2.1 (hplain.1 (by decide +kernel)) 9, hextended.2.2 (by decide +kernel)⟩

end PangeaOperator.LavaRuby
