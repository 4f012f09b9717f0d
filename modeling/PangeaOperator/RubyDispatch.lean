import PangeaOperator.RubyModules
import PangeaOperator.Lib.EpochCache
import PangeaOperator.Lib.Run

/-!
# Method lookup through the caches

`lookup_chain_rc` and `find_method` keep what they find under the class, the singleton or
the module of a receiver, with the epoch. The accessors `methods_mut`, `includes_mut`,
`meta_mut` and `singleton_mut` start a new epoch; `include` and `prepend` write the list of
mixins without them.
-/

namespace PangeaOperator.LavaRuby

variable {β : Type}

/-- The kind of key, and the id of a class, a singleton or a module. -/
abbrev ChainKey := Nat × Nat

structure State (β : Type) where
  heap : Heap β
  epoch : Nat
  chainCache : EpochCache ChainKey (List Nat)
  methodCache : EpochCache (ChainKey × String) (Option (Meth β × Nat))

def Heap.chainKey (h : Heap β) : Value → Option ChainKey
  | .obj p => (h.objects p).map (fun o =>
      match o.singleton with
      | some s => (1, s)
      | none => (0, o.cls))
  | .mod m => some (2, m)
  | .core c => (h.classOf (.core c)).map (fun c => (0, c))

namespace State

variable (stack : Nat)

/-! ## Cached lookups -/

def lookupChainRc (v : Value) (s : State β) : Option (List Nat) × State β :=
  match s.heap.chainKey v with
  | none => (none, s)
  | some key =>
    let r := s.chainCache.fetch s.epoch key (s.heap.lookupChainUncached stack v)
    (r.1, { s with chainCache := r.2 })

def findMethod (v : Value) (name : String) (s : State β) :
    Option (Option (Meth β × Nat)) × State β :=
  match s.heap.chainKey v with
  | none => (none, s)
  | some key =>
    match s.methodCache.hit s.epoch (key, name) with
    | some r => (some r, s)
    | none =>
      match s.lookupChainRc stack v with
      | (none, s') => (none, s')
      | (some chain, s') =>
        let r := s.heap.findIn name chain
        (some r, { s' with methodCache := s'.methodCache.store s.epoch (key, name) r })

/-! ## Writes -/

def bump (s : State β) : State β := { s with epoch := s.epoch + 1 }

/-- A write through one of the accessors. -/
def write (m : Nat) (f : Module β → Module β) (s : State β) : State β :=
  { s.bump with
    heap.modules := fun i => if i = m then (s.heap.modules i).map f else s.heap.modules i }

def insertMethod (m : Nat) (name : String) (me : Meth β) : State β → State β :=
  write m (fun md => { md with methods := fun n => if n = name then some me else md.methods n })

/-- `id`: the counter that modules, frames and procs share. -/
def freshId (s : State β) : State β := { s with heap.nextId := s.heap.nextId + 1 }

def newModule (isClass : Bool) (superclass : Option Nat) (s : State β) : Nat × State β :=
  (s.heap.nextId, { s.freshId with
    heap.modules := fun i => if i = s.heap.nextId
      then some ⟨isClass, superclass, fun _ => none, [], [], none⟩ else s.heap.modules i })

def newObject (o : Obj) (s : State β) : State β :=
  { s with
    heap.nextPtr := s.heap.nextPtr + 1
    heap.objects := fun p => if p = s.heap.nextPtr then some o else s.heap.objects p }

def metaOf (m : Nat) (s : State β) : Nat × State β :=
  match (s.heap.modules m).bind (·.metaId) with
  | some i => (i, s)
  | none =>
    let (i, s') := s.newModule true none
    (i, s'.write m ({ · with metaId := some i }))

/-- The singleton of an object or a module; a core value has none. -/
def singletonOf (v : Value) (s : State β) : Option Nat × State β :=
  match v with
  | .obj p =>
    match s.heap.objects p with
    | none => (none, s)
    | some o =>
      match o.singleton with
      | some i => (some i, s)
      | none =>
        let (i, s') := s.newModule true (some o.cls)
        (some i, { s'.bump with
          heap.objects := fun q => if q = p then some { o with singleton := some i }
            else s'.heap.objects q })
  | .mod m => ((s.metaOf m).1, (s.metaOf m).2)
  | .core _ => (none, s)

/-! ## The writes of a program -/

/-- `def`, also onto the module itself after `module_function`. -/
def define (target : Nat) (name : String) (body : β) (s : State β) : State β :=
  let um : Meth β := .user ⟨name, target, body⟩
  let s' := s.insertMethod target name um
  if s.heap.moduleFunction target then
    let (i, s'') := s'.metaOf target
    s''.insertMethod i name um
  else s'

/-- `def recv.name`. -/
def defineSelf (recv : Value) (name : String) (body : β) (s : State β) : State β :=
  match s.singletonOf recv with
  | (some i, s') => s'.insertMethod i name (.user ⟨name, i, body⟩)
  | (none, s') => s'

def defineSingletonMethod (recv : Value) (name : String) (body : β) (s : State β) : State β :=
  match s.singletonOf recv with
  | (some i, s') => s'.insertMethod i name (.proc body i)
  | (none, s') => s'

/-- A copy of the first entry among the ancestors, or of the native method. -/
def aliasMethod (target : Nat) (name source : String) (s : State β) : State β :=
  match s.heap.ancestors stack target with
  | none => s
  | some a =>
    s.insertMethod target name ((a.findSome? (s.heap.method · source)).getD (.native source))

def defineAttr (m : Nat) (name : String) (reader writer : Bool) (s : State β) : State β :=
  let s' := if reader then s.insertMethod m name (.native ("__attr_r_" ++ name)) else s
  if writer then s'.insertMethod m (name ++ "=") (.native ("__attr_w_" ++ name)) else s'

def removeMethod (m : Nat) (name : String) : State β → State β :=
  write m (fun md => { md with methods := fun n => if n = name then none else md.methods n })

def moduleFunction (m : Nat) (names : List String) (s : State β) : State β :=
  if names.isEmpty then
    { s with heap.moduleFunction := fun i => if i = m then true else s.heap.moduleFunction i }
  else
    let (i, s') := s.metaOf m
    names.foldl (fun t name =>
      match t.heap.method m name with
      | some me => t.insertMethod i name me
      | none => t) s'

def extend (recv : Value) (e : Nat) (s : State β) : State β :=
  match s.singletonOf recv with
  | (some i, s') =>
    if e ∈ ((s'.heap.modules i).map (·.includes)).getD [] then s'
    else s'.write i (fun md => { md with includes := md.includes ++ [e] })
  | (none, s') => s'

/-- `include` and `prepend`, which start no epoch. -/
def mixin (prepend : Bool) (m inc : Nat) (s : State β) : State β :=
  { s with heap.modules := fun i => if i = m then (s.heap.modules i).map (fun md =>
      if prepend then
        if inc ∈ md.prepends then md else { md with prepends := md.prepends ++ [inc] }
      else if inc ∈ md.includes then md else { md with includes := md.includes ++ [inc] })
    else s.heap.modules i }

/-- `dup`, and `clone` with the singleton. -/
def copyObject (clone : Bool) (p : Nat) (s : State β) : State β :=
  match s.heap.objects p with
  | none => s
  | some o => s.newObject { o with singleton := if clone then o.singleton else none }

end State

inductive Op (β : Type) where
  | freshId
  | newModule (isClass : Bool) (superclass : Option Nat)
  | newObject (cls : Nat)
  | copyObject (clone : Bool) (p : Nat)
  | singletonOf (v : Value)
  | define (target : Nat) (name : String) (body : β)
  | defineSelf (recv : Value) (name : String) (body : β)
  | defineMethod (m : Nat) (name : String) (body : β)
  | defineSingletonMethod (recv : Value) (name : String) (body : β)
  | aliasMethod (target : Nat) (name source : String)
  | defineAttr (m : Nat) (name : String) (reader writer : Bool)
  | undef (m : Nat) (name : String)
  | removeMethod (m : Nat) (name : String)
  | moduleFunction (m : Nat) (names : List String)
  | extend (recv : Value) (e : Nat)
  | mixin (prepend : Bool) (m inc : Nat)
  | lookupChain (v : Value)
  | findMethod (v : Value) (name : String)
  /-- Another interpreter of the process starts an epoch. -/
  | elsewhere

def step (stack : Nat) (s : State β) : Op β → State β
  | .freshId => s.freshId
  | .newModule isClass superclass => (s.newModule isClass superclass).2
  | .newObject cls => s.newObject ⟨cls, none⟩
  | .copyObject clone p => s.copyObject clone p
  | .singletonOf v => (s.singletonOf v).2
  | .define target name body => s.define target name body
  | .defineSelf recv name body => s.defineSelf recv name body
  | .defineMethod m name body => s.insertMethod m name (.proc body m)
  | .defineSingletonMethod recv name body => s.defineSingletonMethod recv name body
  | .aliasMethod target name source => s.aliasMethod stack target name source
  | .defineAttr m name reader writer => s.defineAttr m name reader writer
  | .undef m name => s.insertMethod m name .undefined
  | .removeMethod m name => s.removeMethod m name
  | .moduleFunction m names => s.moduleFunction m names
  | .extend recv e => s.extend recv e
  | .mixin prepend m inc => s.mixin prepend m inc
  | .lookupChain v => (s.lookupChainRc stack v).2
  | .findMethod v name => (s.findMethod stack v name).2
  | .elsewhere => s.bump

/-! ## What a key stands for -/

/-- The chain of every receiver with that key. -/
def Heap.ofKey (stack : Nat) (h : Heap β) : ChainKey → Option (List Nat)
  | (0, c) => h.ancestors stack c
  | (1, s) => do
    let md ← h.modules s
    let c ← md.superclass
    let own ← h.singletonChain stack s
    let rest ← h.ancestors stack c
    pure (own ++ rest)
  | (_, m) => h.lookupChainUncached stack (.mod m)

/-- What `find_method` may keep under a key and a name. -/
def Heap.ofName (stack : Nat) (h : Heap β) (k : ChainKey × String) :
    Option (Option (Meth β × Nat)) :=
  (h.ofKey stack k.1).map (h.findIn k.2)

/-- New ids are unused, and a singleton is a subclass of its objects' class. -/
structure Heap.WellFormed (h : Heap β) : Prop where
  ids : ∀ {m md}, h.modules m = some md → m < h.nextId
  ptrs : ∀ {p o}, h.objects p = some o → p < h.nextPtr
  singleton : ∀ {p o s}, h.objects p = some o → o.singleton = some s →
    ∃ md, h.modules s = some md ∧ md.superclass = some o.cls

theorem lookupChainUncached_eq_ofKey {h : Heap β} (hw : h.WellFormed) (stack : Nat) {v : Value}
    {key : ChainKey} (hk : h.chainKey v = some key) :
    h.lookupChainUncached stack v = h.ofKey stack key := by
  cases v with
  | core c =>
    obtain rfl : (0, h.classes c.className) = key := Option.some.inj hk
    rfl
  | mod m =>
    obtain rfl : (2, m) = key := Option.some.inj hk
    rfl
  | obj p =>
    obtain ⟨o, ho, rfl⟩ := Option.map_eq_some_iff.mp hk
    cases hs : o.singleton with
    | none => simp [Heap.lookupChainUncached, Heap.ofKey, ho, hs]
    | some s =>
      obtain ⟨md, hmd, hsup⟩ := hw.singleton ho hs
      simp [Heap.lookupChainUncached, Heap.ofKey, ho, hs, hmd, hsup]

section Extends

variable {h h' : Heap β} (hext : Extends h h') {stack : Nat}
include hext

theorem Extends.singletonChain {s : Nat} {out : List Nat}
    (hout : h.singletonChain stack s = some out) : h'.singletonChain stack s = some out := by
  simp only [Heap.singletonChain, Option.bind_eq_bind, Option.bind_eq_some_iff] at hout ⊢
  obtain ⟨md, hmd, extended, hextended, hout⟩ := hout
  refine ⟨md, hext.modules hmd, extended, mapM_eq_of_some (fun inc b hb => ?_) hextended, hout⟩
  obtain ⟨a, ha, hb⟩ := Option.bind_eq_some_iff.mp hb
  exact Option.bind_eq_some_iff.mpr ⟨a, hext.ancestors (Nat.le_refl stack) ha, hb⟩

theorem Extends.metaBlock {s : Option Nat} {out : List Nat}
    (hout : h.metaBlock stack s = some out) : h'.metaBlock stack s = some out := by
  cases s with
  | none => exact hout
  | some s =>
    simp only [Heap.metaBlock, Option.bind_eq_bind, Option.bind_eq_some_iff] at hout ⊢
    obtain ⟨smd, hsmd, included, hincluded, hout⟩ := hout
    exact ⟨smd, hext.modules hsmd, included,
      mapM_eq_of_some (fun _ _ => hext.ancestors (Nat.le_refl stack)) hincluded, hout⟩

theorem Extends.metaChain {n m : Nat} {out : List Nat} (hout : h.metaChain stack n m = some out) :
    h'.metaChain stack n m = some out := by
  induction n generalizing m out with
  | zero => cases hout
  | succ n ih =>
    simp only [Heap.metaChain, Option.bind_eq_bind, Option.bind_eq_some_iff] at hout ⊢
    obtain ⟨md, hmd, own, hown, hout⟩ := hout
    refine ⟨md, hext.modules hmd, own, hext.metaBlock hown, ?_⟩
    revert hout
    cases md.isClass <;> cases md.superclass <;>
      simp only [Option.bind_eq_some_iff, imp_self]
    rintro ⟨rest, hrest, hout⟩
    exact ⟨rest, ih hrest, hout⟩

theorem Extends.classOf {v : Value} {c : Nat} (hc : h.classOf v = some c) :
    h'.classOf v = some c := by
  cases v with
  | core k => simpa [Heap.classOf, hext.classes] using hc
  | obj p =>
    obtain ⟨o, ho, rfl⟩ := Option.map_eq_some_iff.mp hc
    exact Option.map_eq_some_iff.mpr ⟨o, hext.objects ho, rfl⟩
  | mod m =>
    obtain ⟨md, hmd, rfl⟩ := Option.map_eq_some_iff.mp hc
    exact Option.map_eq_some_iff.mpr ⟨md, hext.modules hmd, by rw [hext.classes]⟩

theorem Extends.ofKey {key : ChainKey} {out : List Nat} (hout : h.ofKey stack key = some out) :
    h'.ofKey stack key = some out := by
  unfold Heap.ofKey at hout ⊢
  split at hout
  · exact hext.ancestors (Nat.le_refl stack) hout
  · simp only [Option.bind_eq_bind, Option.bind_eq_some_iff] at hout ⊢
    obtain ⟨md, hmd, c, hc, own, hown, rest, hrest, hout⟩ := hout
    exact ⟨md, hext.modules hmd, c, hc, own, hext.singletonChain hown, rest,
      hext.ancestors (Nat.le_refl stack) hrest, hout⟩
  · simp only [Heap.lookupChainUncached, Option.bind_eq_bind, Option.bind_eq_some_iff] at hout ⊢
    obtain ⟨metas, hmetas, rest, ⟨c, hc, hrest⟩, hout⟩ := hout
    exact ⟨metas, hext.metaChain hmetas, rest,
      ⟨c, hext.classOf hc, hext.ancestors (Nat.le_refl stack) hrest⟩, hout⟩

end Extends

/-! ## The modules of a chain exist -/

section Mem

variable {h : Heap β} {stack : Nat}

theorem modules_of_mem_withIncludes {n m x : Nat} {out : List Nat}
    (hout : h.withIncludes n m = some out) (hx : x ∈ out) : (h.modules x).isSome := by
  induction n generalizing m out with
  | zero => cases hout
  | succ n ih =>
    simp only [Heap.withIncludes, Option.bind_eq_bind, Option.bind_eq_some_iff] at hout
    obtain ⟨md, hmd, included, hincluded, hout⟩ := hout
    obtain rfl : m :: included.flatten = out := Option.some.inj hout
    rcases List.mem_cons.mp hx with rfl | hx
    · simp [hmd]
    · obtain ⟨a, b, hb, hx⟩ := mem_flatten_of_mapM hincluded hx
      exact ih hb hx

theorem modules_of_mem_linear {n c x : Nat} {out : List Nat} (hout : h.linear n c = some out)
    (hx : x ∈ out) : (h.modules x).isSome := by
  induction n generalizing c out with
  | zero => cases hout
  | succ n ih =>
    simp only [Heap.linear, Option.bind_eq_bind, Option.bind_eq_some_iff] at hout
    obtain ⟨md, hmd, own, hown, hout⟩ := hout
    have hblock : ∀ y ∈ own, (h.modules y).isSome := by
      simp only [Heap.block, Option.bind_eq_bind, Option.bind_eq_some_iff] at hown
      obtain ⟨prepended, hprepended, included, hincluded, hown⟩ := hown
      obtain rfl := Option.some.inj hown
      intro y hy
      simp only [List.mem_append, List.mem_cons] at hy
      rcases hy with hy | rfl | hy
      · obtain ⟨a, b, hb, hy⟩ := mem_flatten_of_mapM hprepended hy
        exact modules_of_mem_withIncludes hb hy
      · simp [hmd]
      · obtain ⟨a, b, hb, hy⟩ := mem_flatten_of_mapM hincluded hy
        exact modules_of_mem_withIncludes hb hy
    cases hs : md.superclass with
    | none =>
      rw [hs] at hout
      obtain rfl : own = out := Option.some.inj hout
      exact hblock x hx
    | some s =>
      simp only [hs, Option.bind_eq_some_iff] at hout
      obtain ⟨rest, hrest, hout⟩ := hout
      obtain rfl : own ++ rest = out := Option.some.inj hout
      rcases List.mem_append.mp hx with hx | hx
      · exact hblock x hx
      · exact ih hrest hx

theorem modules_of_mem_ancestors {c x : Nat} {out : List Nat}
    (hout : h.ancestors stack c = some out) (hx : x ∈ out) : (h.modules x).isSome := by
  obtain ⟨all, hall, rfl⟩ := Option.map_eq_some_iff.mp hout
  rw [keepLast_eq, List.mem_dedup] at hx
  exact modules_of_mem_linear hall hx

theorem modules_of_ancestors {c : Nat} {out : List Nat} (hout : h.ancestors stack c = some out) :
    (h.modules c).isSome := by
  obtain ⟨all, hall, -⟩ := Option.map_eq_some_iff.mp hout
  cases stack with
  | zero => cases hall
  | succ n =>
    obtain ⟨md, hmd, -⟩ := Option.bind_eq_some_iff.mp hall
    simp [hmd]

theorem modules_of_mem_singletonChain {s x : Nat} {out : List Nat}
    (hout : h.singletonChain stack s = some out) (hx : x ∈ out) : (h.modules x).isSome := by
  simp only [Heap.singletonChain, Option.bind_eq_bind, Option.bind_eq_some_iff] at hout
  obtain ⟨md, hmd, extended, hextended, hout⟩ := hout
  obtain rfl : s :: extended.flatten = out := Option.some.inj hout
  rcases List.mem_cons.mp hx with rfl | hx
  · simp [hmd]
  · obtain ⟨inc, b, hb, hx⟩ := mem_flatten_of_mapM hextended hx
    obtain ⟨a, ha, hb⟩ := Option.bind_eq_some_iff.mp hb
    obtain rfl : inc :: a.drop 1 = b := Option.some.inj hb
    rcases List.mem_cons.mp hx with rfl | hx
    · exact modules_of_ancestors ha
    · exact modules_of_mem_ancestors ha (List.mem_of_mem_drop hx)

theorem modules_of_mem_metaChain {n m x : Nat} {out : List Nat}
    (hout : h.metaChain stack n m = some out) (hx : x ∈ out) : (h.modules x).isSome := by
  induction n generalizing m out with
  | zero => cases hout
  | succ n ih =>
    simp only [Heap.metaChain, Option.bind_eq_bind, Option.bind_eq_some_iff] at hout
    obtain ⟨md, hmd, own, hown, hout⟩ := hout
    have hblock : ∀ y ∈ own, (h.modules y).isSome := by
      cases hs : md.metaId with
      | none =>
        rw [hs] at hown
        obtain rfl : [] = own := Option.some.inj hown
        simp
      | some s =>
        simp only [hs, Heap.metaBlock, Option.bind_eq_bind, Option.bind_eq_some_iff] at hown
        obtain ⟨smd, hsmd, included, hincluded, hown⟩ := hown
        obtain rfl : s :: included.flatten = own := Option.some.inj hown
        intro y hy
        rcases List.mem_cons.mp hy with rfl | hy
        · simp [hsmd]
        · obtain ⟨a, b, hb, hy⟩ := mem_flatten_of_mapM hincluded hy
          exact modules_of_mem_ancestors hb hy
    split at hout
    · obtain ⟨rest, hrest, hout⟩ := Option.bind_eq_some_iff.mp hout
      obtain rfl : own ++ rest = out := Option.some.inj hout
      rcases List.mem_append.mp hx with hx | hx
      · exact hblock x hx
      · exact ih hrest hx
    · obtain rfl : own = out := Option.some.inj hout
      exact hblock x hx

theorem modules_of_mem_ofKey {key : ChainKey} {x : Nat} {out : List Nat}
    (hout : h.ofKey stack key = some out) (hx : x ∈ out) : (h.modules x).isSome := by
  unfold Heap.ofKey at hout
  split at hout
  · exact modules_of_mem_ancestors hout hx
  · simp only [Option.bind_eq_bind, Option.bind_eq_some_iff] at hout
    obtain ⟨md, -, c, -, own, hown, rest, hrest, hout⟩ := hout
    obtain rfl : own ++ rest = out := Option.some.inj hout
    rcases List.mem_append.mp hx with hx | hx
    · exact modules_of_mem_singletonChain hown hx
    · exact modules_of_mem_ancestors hrest hx
  · simp only [Heap.lookupChainUncached, Option.bind_eq_bind, Option.bind_eq_some_iff] at hout
    obtain ⟨metas, hmetas, rest, ⟨c, -, hrest⟩, hout⟩ := hout
    obtain rfl : metas ++ rest = out := Option.some.inj hout
    rcases List.mem_append.mp hx with hx | hx
    · exact modules_of_mem_metaChain hmetas hx
    · exact modules_of_mem_ancestors hrest hx

end Mem

theorem Extends.findIn {h h' : Heap β} (hext : Extends h h') (name : String) {chain : List Nat}
    (hc : ∀ m ∈ chain, (h.modules m).isSome) : h'.findIn name chain = h.findIn name chain := by
  induction chain with
  | nil => rfl
  | cons m chain ih =>
    obtain ⟨md, hmd⟩ := Option.isSome_iff_exists.mp (hc m List.mem_cons_self)
    have hm : h'.method m name = h.method m name := by
      simp [Heap.method, hmd, hext.modules hmd]
    simp only [Heap.findIn, hm, ih (fun x hx => hc x (List.mem_cons_of_mem m hx))]

theorem Extends.ofName {h h' : Heap β} (hext : Extends h h') {stack : Nat} {k : ChainKey × String}
    {r : Option (Meth β × Nat)} (hr : h.ofName stack k = some r) : h'.ofName stack k = some r := by
  obtain ⟨chain, hchain, rfl⟩ := Option.map_eq_some_iff.mp hr
  exact Option.map_eq_some_iff.mpr ⟨chain, hext.ofKey hchain,
    hext.findIn k.2 (fun m hm => modules_of_mem_ofKey hchain hm)⟩

end PangeaOperator.LavaRuby
