import Mathlib.Data.List.Dedup
import Mathlib.Data.List.Lattice
import Mathlib.Logic.Relation

/-!
# Modules and method lookup of the Ruby interpreter

The modules of `lava-ruby/src/value.rs` and the lookup of `interp.rs`. A reference is a
module's id. `ancestors` puts the mixins of each superclass in order and keeps the last of
equal entries. The Rust functions recurse on the native stack; here `stack` bounds the
depth, and `none` is its overflow, which a module that includes itself brings about.
-/

namespace PangeaOperator.LavaRuby

structure UserMethod (β : Type) where
  name : String
  owner : Nat
  body : β
  deriving DecidableEq

inductive Meth (β : Type) where
  | user (um : UserMethod β)
  | proc (body : β) (owner : Nat)
  | undefined
  | native (name : String)
  deriving DecidableEq

def Meth.isUndefined {β : Type} : Meth β → Bool
  | undefined => true
  | _ => false

structure Module (β : Type) where
  isClass : Bool
  superclass : Option Nat
  methods : String → Option (Meth β)
  includes : List Nat
  prepends : List Nat
  metaId : Option Nat

/-- An object, its instance variables aside. -/
structure Obj where
  cls : Nat
  singleton : Option Nat
  deriving DecidableEq

/-- The values that are neither objects nor modules, by their built-in classes. -/
inductive Core where
  | nil
  | true
  | false
  | int
  | float
  | str
  | sym
  | arr
  | hash
  | range
  | proc
  | regex
  | method
  deriving DecidableEq

def Core.className : Core → String
  | nil => "NilClass"
  | true => "TrueClass"
  | false => "FalseClass"
  | int => "Integer"
  | float => "Float"
  | str => "String"
  | sym => "Symbol"
  | arr => "Array"
  | hash => "Hash"
  | range => "Range"
  | proc => "Proc"
  | regex => "Regexp"
  | method => "Method"

inductive Value where
  | core (c : Core)
  | obj (ptr : Nat)
  | mod (id : Nat)
  deriving DecidableEq

/-- `classes` are the built-in classes by their names. -/
structure Heap (β : Type) where
  nextId : Nat
  nextPtr : Nat
  modules : Nat → Option (Module β)
  objects : Nat → Option Obj
  moduleFunction : Nat → Bool
  classes : String → Nat

variable {β : Type}

namespace Heap

variable (h : Heap β)

/-! ## Ancestors -/

/-- `push_module_with_includes`. -/
def withIncludes : Nat → Nat → Option (List Nat)
  | 0, _ => none
  | stack + 1, m => do
    let md ← h.modules m
    let included ← md.includes.reverse.mapM (withIncludes stack)
    pure (m :: included.flatten)

/-- The class and its mixins, before those of its superclass. -/
def block (stack : Nat) (md : Module β) (c : Nat) : Option (List Nat) := do
  let prepended ← md.prepends.reverse.mapM (h.withIncludes stack)
  let included ← md.includes.reverse.mapM (h.withIncludes stack)
  pure (prepended.flatten ++ c :: included.flatten)

/-- The loop over the superclasses. -/
def linear : Nat → Nat → Option (List Nat)
  | 0, _ => none
  | stack + 1, c => do
    let md ← h.modules c
    let own ← h.block stack md c
    match md.superclass with
    | some s => do
      let rest ← linear stack s
      pure (own ++ rest)
    | none => pure own

end Heap

/-- From the end of the list, whatever is seen for the first time. -/
def keepLast (out : List Nat) : List Nat :=
  (out.reverse.foldl (fun (acc : List Nat × List Nat) m =>
    if m ∈ acc.1 then acc else (m :: acc.1, acc.2 ++ [m])) ([], [])).2.reverse

def Heap.ancestors (h : Heap β) (stack : Nat) (m : Nat) : Option (List Nat) :=
  (h.linear stack m).map keepLast

theorem keepLast_eq (out : List Nat) : keepLast out = out.dedup := by
  have h : (∀ m, m ∈ (out.reverse.foldl (fun (acc : List Nat × List Nat) m =>
      if m ∈ acc.1 then acc else (m :: acc.1, acc.2 ++ [m])) ([], [])).1 ↔ m ∈ out) ∧
      keepLast out = out.dedup := by
    unfold keepLast
    rw [List.foldl_reverse]
    induction out with
    | nil => exact ⟨fun m => Iff.rfl, rfl⟩
    | cons x out ih =>
      obtain ⟨hseen, hkept⟩ := ih
      simp only [List.foldr_cons]
      split
      · next hx =>
        rw [hseen] at hx
        refine ⟨fun m => ?_, ?_⟩
        · rw [hseen, List.mem_cons]
          constructor
          · exact .inr
          · rintro (rfl | hm)
            · exact hx
            · exact hm
        · rw [hkept, List.dedup_cons_of_mem hx]
      · next hx =>
        rw [hseen] at hx
        refine ⟨fun m => ?_, ?_⟩
        · rw [List.mem_cons, hseen, List.mem_cons]
        · rw [List.reverse_append, hkept, List.dedup_cons_of_notMem hx]
          rfl
  exact h.2

/-! ## Lookup -/

namespace Heap

variable (h : Heap β)

def method (m : Nat) (name : String) : Option (Meth β) :=
  (h.modules m).bind (·.methods name)

/-- The first entry decides, and `undef` hides what is behind it. -/
def findIn (name : String) : List Nat → Option (Meth β × Nat)
  | [] => none
  | m :: rest =>
    match h.method m name with
    | some me => if me.isUndefined then none else some (me, m)
    | none => findIn name rest

def classOf : Value → Option Nat
  | .core c => some (h.classes c.className)
  | .obj p => (h.objects p).map (·.cls)
  | .mod m => (h.modules m).map (fun md => h.classes (if md.isClass then "Class" else "Module"))

/-- The singleton's own chain: each module comes first in its ancestors, the first of which is
dropped. -/
def singletonChain (stack : Nat) (s : Nat) : Option (List Nat) := do
  let md ← h.modules s
  let extended ← md.includes.reverse.mapM (fun inc => do
    let a ← h.ancestors stack inc
    pure (inc :: a.drop 1))
  pure (s :: extended.flatten)

/-- The singleton of a module, where it has one, and what extends it. -/
def metaBlock (stack : Nat) : Option Nat → Option (List Nat)
  | none => pure []
  | some s => do
    let smd ← h.modules s
    let included ← smd.includes.reverse.mapM (h.ancestors stack)
    pure (s :: included.flatten)

/-- The singletons of a module and, for a class, of its superclasses. -/
def metaChain (stack : Nat) : Nat → Nat → Option (List Nat)
  | 0, _ => none
  | n + 1, m => do
    let md ← h.modules m
    let own ← h.metaBlock stack md.metaId
    match md.isClass, md.superclass with
    | true, some c => do
      let rest ← metaChain stack n c
      pure (own ++ rest)
    | _, _ => pure own

def lookupChainUncached (stack : Nat) : Value → Option (List Nat)
  | .obj p => do
    let o ← h.objects p
    match o.singleton with
    | some s => do
      let own ← h.singletonChain stack s
      let rest ← h.ancestors stack o.cls
      pure (own ++ rest)
    | none => h.ancestors stack o.cls
  | .mod m => do
    let metas ← h.metaChain stack stack m
    let rest ← (h.classOf (.mod m)).bind (h.ancestors stack)
    pure (metas ++ rest)
  | .core c => (h.classOf (.core c)).bind (h.ancestors stack)

/-- The lookup without the caches; the outer option is the stack. -/
def findMethodUncached (stack : Nat) (v : Value) (name : String) :
    Option (Option (Meth β × Nat)) :=
  (h.lookupChainUncached stack v).map (h.findIn name)

end Heap

/-! ## A superclass keeps its order -/

theorem ancestors_nodup {h : Heap β} {stack m : Nat} {a : List Nat}
    (ha : h.ancestors stack m = some a) : a.Nodup := by
  obtain ⟨out, -, rfl⟩ := Option.map_eq_some_iff.mp ha
  rw [keepLast_eq]
  exact List.nodup_dedup out

theorem mapM_eq_of_some {α γ : Type} {f g : α → Option γ} (h : ∀ a b, f a = some b → g a = some b)
    {l : List α} {bs : List γ} (hl : l.mapM f = some bs) : l.mapM g = some bs := by
  induction l generalizing bs with
  | nil => exact hl
  | cons a l ih =>
    simp only [List.mapM_cons, Option.bind_eq_bind, Option.bind_eq_some_iff] at hl ⊢
    obtain ⟨b, hb, rest, hrest, hbs⟩ := hl
    exact ⟨b, h a b hb, rest, ih hrest, hbs⟩

theorem mem_flatten_of_mapM {α γ : Type} {f : α → Option (List γ)} {l : List α}
    {bs : List (List γ)} (hl : l.mapM f = some bs) {x : γ} (hx : x ∈ bs.flatten) :
    ∃ a b, f a = some b ∧ x ∈ b := by
  induction l generalizing bs with
  | nil =>
    obtain rfl : [] = bs := Option.some.inj hl
    simp at hx
  | cons a l ih =>
    simp only [List.mapM_cons, Option.bind_eq_bind, Option.bind_eq_some_iff] at hl
    obtain ⟨b, hb, rest, hrest, hbs⟩ := hl
    obtain rfl : b :: rest = bs := Option.some.inj hbs
    rcases List.mem_append.mp (List.flatten_cons ▸ hx) with hx | hx
    · exact ⟨a, b, hb, hx⟩
    · exact ih hrest hx

/-- A heap that holds at least the modules and objects of another. -/
structure Extends (h h' : Heap β) : Prop where
  modules : ∀ {m md}, h.modules m = some md → h'.modules m = some md
  objects : ∀ {p o}, h.objects p = some o → h'.objects p = some o
  classes : h'.classes = h.classes

section Extends

variable {h h' : Heap β} (hext : Extends h h')
include hext

theorem Extends.withIncludes {stack stack' m : Nat} (hle : stack ≤ stack') {out : List Nat}
    (hout : h.withIncludes stack m = some out) : h'.withIncludes stack' m = some out := by
  induction stack generalizing m out stack' with
  | zero => cases hout
  | succ stack ih =>
    obtain ⟨stack', rfl⟩ : ∃ k, stack' = k + 1 := ⟨stack' - 1, by omega⟩
    simp only [Heap.withIncludes, Option.bind_eq_bind, Option.bind_eq_some_iff] at hout ⊢
    obtain ⟨md, hmd, included, hincluded, hout⟩ := hout
    exact ⟨md, hext.modules hmd, included,
      mapM_eq_of_some (fun _ _ => ih (by omega)) hincluded, hout⟩

theorem Extends.block {stack stack' : Nat} (hle : stack ≤ stack') {md : Module β} {c : Nat}
    {out : List Nat} (hout : h.block stack md c = some out) :
    h'.block stack' md c = some out := by
  simp only [Heap.block, Option.bind_eq_bind, Option.bind_eq_some_iff] at hout ⊢
  obtain ⟨prepended, hprepended, included, hincluded, hout⟩ := hout
  exact ⟨prepended, mapM_eq_of_some (fun _ _ => hext.withIncludes hle) hprepended, included,
    mapM_eq_of_some (fun _ _ => hext.withIncludes hle) hincluded, hout⟩

theorem Extends.linear {stack stack' c : Nat} (hle : stack ≤ stack') {out : List Nat}
    (hout : h.linear stack c = some out) : h'.linear stack' c = some out := by
  induction stack generalizing c out stack' with
  | zero => cases hout
  | succ stack ih =>
    obtain ⟨stack', rfl⟩ : ∃ k, stack' = k + 1 := ⟨stack' - 1, by omega⟩
    simp only [Heap.linear, Option.bind_eq_bind, Option.bind_eq_some_iff] at hout ⊢
    obtain ⟨md, hmd, own, hown, hout⟩ := hout
    refine ⟨md, hext.modules hmd, own, hext.block (by omega) hown, ?_⟩
    cases hs : md.superclass with
    | none => simpa [hs] using hout
    | some s =>
      simp only [hs, Option.bind_eq_some_iff] at hout ⊢
      obtain ⟨rest, hrest, hout⟩ := hout
      exact ⟨rest, ih (by omega) hrest, hout⟩

theorem Extends.ancestors {stack stack' m : Nat} (hle : stack ≤ stack') {out : List Nat}
    (hout : h.ancestors stack m = some out) : h'.ancestors stack' m = some out := by
  obtain ⟨all, hall, rfl⟩ := Option.map_eq_some_iff.mp hout
  exact Option.map_eq_some_iff.mpr ⟨all, hext.linear hle hall, rfl⟩

end Extends

theorem Extends.refl (h : Heap β) : Extends h h := ⟨id, id, rfl⟩

theorem Extends.trans {h h' h'' : Heap β} (hab : Extends h h') (hbc : Extends h' h'') :
    Extends h h'' :=
  ⟨fun hm => hbc.modules (hab.modules hm), fun ho => hbc.objects (hab.objects ho),
    hbc.classes.trans hab.classes⟩

/-- What a class has before its superclass's ancestors is its own block less those. -/
theorem ancestors_superclass {h : Heap β} {stack c s : Nat} {md : Module β} {a : List Nat}
    (hmd : h.modules c = some md) (hs : md.superclass = some s)
    (ha : h.ancestors stack c = some a) :
    ∃ own inherited, h.ancestors stack s = some inherited ∧ a = own ++ inherited ∧
      ∀ stack' own', h.block stack' md c = some own' → ∀ m ∈ own, m ∈ own' := by
  obtain ⟨out, hout, rfl⟩ := Option.map_eq_some_iff.mp ha
  cases stack with
  | zero => cases hout
  | succ stack =>
    simp only [Heap.linear, hmd, Option.bind_eq_bind, Option.bind_some, hs,
      Option.bind_eq_some_iff] at hout
    obtain ⟨own, hown, rest, hrest, hout⟩ := hout
    obtain rfl : own ++ rest = out := Option.some.inj hout
    rw [keepLast_eq, List.dedup_append]
    obtain ⟨before, hbefore⟩ := List.suffix_union_right own rest.dedup
    have hnodup := List.nodup_dedup (own ++ rest)
    rw [List.dedup_append, ← hbefore] at hnodup
    refine ⟨before, rest.dedup, ?_, hbefore.symm, fun stack' own' hown' m hm => ?_⟩
    · refine Option.map_eq_some_iff.mpr ⟨rest, ?_, keepLast_eq rest⟩
      exact (Extends.refl h).linear (Nat.le_succ stack) hrest
    · have hsame : own = own' := by
        have hl := (Extends.refl h).block (Nat.le_max_left stack stack') hown
        have hr := (Extends.refl h).block (Nat.le_max_right stack stack') hown'
        exact Option.some.inj (hl.symm.trans hr)
      have hmem : m ∈ own ∪ rest.dedup := hbefore ▸ List.mem_append_left _ hm
      rcases List.mem_union_iff.mp hmem with hm' | hm'
      · exact hsame ▸ hm'
      · exact absurd hm' (List.disjoint_of_nodup_append hnodup hm)

theorem findIn_append (h : Heap β) (name : String) (own inherited : List Nat) :
    h.findIn name (own ++ inherited) =
      if own.any (fun m => (h.method m name).isSome) then h.findIn name own
      else h.findIn name inherited := by
  induction own with
  | nil => rfl
  | cons m own ih =>
    cases hm : h.method m name with
    | none => simpa [Heap.findIn, hm] using ih
    | some me => simp [Heap.findIn, hm]

def Superclass (h : Heap β) (c s : Nat) : Prop :=
  ∃ md, h.modules c = some md ∧ md.superclass = some s

/-- A class resolves every name as its superclasses do, in their order, unless a module that
it has besides theirs decides it. -/
theorem inherits_from (h : Heap β) {stack c s : Nat} {a : List Nat}
    (hs : Relation.ReflTransGen (Superclass h) c s) (ha : h.ancestors stack c = some a) :
    ∃ own inherited, h.ancestors stack s = some inherited ∧ a = own ++ inherited ∧
      (∀ m ∈ own, m ∉ inherited) ∧ ∀ name, h.findIn name a =
        if own.any (fun m => (h.method m name).isSome) then h.findIn name own
        else h.findIn name inherited := by
  have hsuffix : ∃ own inherited, h.ancestors stack s = some inherited ∧ a = own ++ inherited := by
    induction hs with
    | refl => exact ⟨[], a, ha, rfl⟩
    | tail _ hstep ih =>
      obtain ⟨own, between, hbetween, rfl⟩ := ih
      obtain ⟨md, hmd, hsup⟩ := hstep
      obtain ⟨more, inherited, hinherited, rfl, -⟩ := ancestors_superclass hmd hsup hbetween
      exact ⟨own ++ more, inherited, hinherited, (List.append_assoc own more inherited).symm⟩
  obtain ⟨own, inherited, hinherited, rfl⟩ := hsuffix
  refine ⟨own, inherited, hinherited, rfl, fun m hm => ?_, fun name => findIn_append h name _ _⟩
  exact List.disjoint_of_nodup_append (ancestors_nodup ha) hm

/-- A subclass that includes a mixin of its superclass again, and one of its own. -/
def mixedHeap : Heap Nat where
  nextId := 100
  nextPtr := 0
  modules
    | 2 => some ⟨true, none, fun _ => none, [], [], none⟩
    | 10 => some ⟨false, none, fun n => if n = "to_h" then some (.user ⟨n, 10, 0⟩) else none,
        [], [], none⟩
    | 11 => some ⟨false, none, fun _ => none, [], [], none⟩
    | 20 => some ⟨true, some 2, fun _ => none, [10], [], none⟩
    | 21 => some ⟨true, some 20, fun _ => none, [10, 11], [], none⟩
    | _ => none
  objects := fun _ => none
  moduleFunction := fun _ => false
  classes := fun _ => 2

theorem inherits_from_mixed :
    mixedHeap.ancestors 9 21 = some [21, 11, 20, 10, 2] ∧
    ∃ own inherited, mixedHeap.ancestors 9 20 = some inherited ∧
      [21, 11, 20, 10, 2] = own ++ inherited ∧ (∀ m ∈ own, m ∉ inherited) ∧
      ∀ name, mixedHeap.findIn name [21, 11, 20, 10, 2] =
        if own.any (fun m => (mixedHeap.method m name).isSome) then mixedHeap.findIn name own
        else mixedHeap.findIn name inherited := by
  have ha : mixedHeap.ancestors 9 21 = some [21, 11, 20, 10, 2] := by decide +kernel
  have hs : Superclass mixedHeap 21 20 := ⟨_, rfl, rfl⟩
  exact ⟨ha, inherits_from mixedHeap (.single hs) ha⟩

end PangeaOperator.LavaRuby
