import PangeaOperator.RubyDispatch
import Mathlib.Order.Nat

/-!
# When a cached lookup is the lookup

A cached answer is right in any run of a program in which an epoch has begun since the last
`include` or `prepend` that changed a module.
-/

namespace PangeaOperator.LavaRuby

variable {β : Type}

/-- What holds in every run. -/
structure Sound (s : State β) : Prop where
  heap : s.heap.WellFormed
  chains : s.chainCache.Bounded s.epoch
  methods : s.methodCache.Bounded s.epoch

/-- What is cached in the present epoch is what a lookup finds. -/
structure Fresh (n : Nat) (s : State β) : Prop where
  chains : s.chainCache.Current s.epoch (s.heap.ofKey n)
  methods : s.methodCache.Current s.epoch (s.heap.ofName n)

/-- A transition that spoils nothing, and renews everything if it starts an epoch. -/
structure Keeps (n : Nat) (s t : State β) : Prop where
  sound : Sound t
  epoch : s.epoch ≤ t.epoch
  fresh : Fresh n s → Fresh n t
  renewed : s.epoch < t.epoch → Fresh n t

variable {n : Nat} {s t u : State β}

theorem Keeps.refl (h : Sound s) : Keeps n s s where
  sound := h
  epoch := Nat.le_refl _
  fresh := id
  renewed hlt := absurd hlt (Nat.lt_irrefl _)

theorem Keeps.trans (hst : Keeps n s t) (htu : Keeps n t u) : Keeps n s u where
  sound := htu.sound
  epoch := hst.epoch.trans htu.epoch
  fresh h := htu.fresh (hst.fresh h)
  renewed hlt := by
    rcases Nat.lt_or_ge t.epoch u.epoch with h | h
    · exact htu.renewed h
    · exact htu.fresh (hst.renewed (hlt.trans_le h))

/-- New modules and objects alone. -/
theorem keeps_of_extends (h : Sound s) (hw : t.heap.WellFormed) (hext : Extends s.heap t.heap)
    (hepoch : t.epoch = s.epoch) (hchains : t.chainCache = s.chainCache)
    (hmethods : t.methodCache = s.methodCache) : Keeps n s t where
  sound := ⟨hw, hepoch ▸ hchains ▸ h.chains, hepoch ▸ hmethods ▸ h.methods⟩
  epoch := hepoch.ge
  fresh hf := by
    refine ⟨?_, ?_⟩
    · rw [hchains, hepoch]
      exact hf.chains.mono (fun _ _ => hext.ofKey)
    · rw [hmethods, hepoch]
      exact hf.methods.mono (fun _ _ => hext.ofName)
  renewed hlt := absurd (hepoch ▸ hlt) (Nat.lt_irrefl _)

/-- A new epoch, whatever was written. -/
theorem keeps_of_bump (h : Sound s) (hw : t.heap.WellFormed) (hepoch : t.epoch = s.epoch + 1)
    (hchains : t.chainCache = s.chainCache) (hmethods : t.methodCache = s.methodCache) :
    Keeps n s t := by
  have hlt : s.epoch < t.epoch := hepoch ▸ Nat.lt_succ_self _
  have hfresh : Fresh n t :=
    ⟨hchains ▸ h.chains.current_of_lt hlt, hmethods ▸ h.methods.current_of_lt hlt⟩
  exact ⟨⟨hw, hchains ▸ h.chains.le hlt.le, hmethods ▸ h.methods.le hlt.le⟩, hlt.le,
    fun _ => hfresh, fun _ => hfresh⟩

/-! ## Writes -/

/-- Superclasses stay as they were. -/
theorem wellFormed_write (h : s.heap.WellFormed) (m : Nat) {f : Module β → Module β}
    (hf : ∀ md, (f md).superclass = md.superclass) : (s.write m f).heap.WellFormed where
  ids {i md} hi := by
    simp only [State.write] at hi
    split at hi
    · obtain ⟨md', hmd', -⟩ := Option.map_eq_some_iff.mp hi
      exact h.ids hmd'
    · exact h.ids hi
  ptrs := h.ptrs
  singleton {p o i} ho hi := by
    obtain ⟨md, hmd, hsup⟩ := h.singleton ho hi
    simp only [State.write]
    split
    · exact ⟨f md, by rw [hmd]; rfl, (hf md).trans hsup⟩
    · exact ⟨md, hmd, hsup⟩

theorem keeps_write (h : Sound s) (m : Nat) {f : Module β → Module β}
    (hf : ∀ md, (f md).superclass = md.superclass) : Keeps n s (s.write m f) :=
  keeps_of_bump h (wellFormed_write h.heap m hf) rfl rfl rfl

theorem keeps_insertMethod (h : Sound s) (m : Nat) (name : String) (me : Meth β) :
    Keeps n s (s.insertMethod m name me) :=
  keeps_write h m (fun _ => rfl)

theorem keeps_bump (h : Sound s) : Keeps n s s.bump :=
  keeps_of_bump h h.heap rfl rfl rfl

theorem keeps_freshId (h : Sound s) : Keeps n s s.freshId :=
  keeps_of_extends h ⟨fun hm => (h.heap.ids hm).trans (Nat.lt_succ_self _), h.heap.ptrs,
    h.heap.singleton⟩ ⟨id, id, rfl⟩ rfl rfl rfl

theorem extends_newModule (h : s.heap.WellFormed) (isClass : Bool) (superclass : Option Nat) :
    Extends s.heap (s.newModule isClass superclass).2.heap where
  modules {m md} hm := by
    have hne : m ≠ s.heap.nextId := Nat.ne_of_lt (h.ids hm)
    simpa [State.newModule, State.freshId, hne] using hm
  objects := id
  classes := rfl

theorem keeps_newModule (h : Sound s) (isClass : Bool) (superclass : Option Nat) :
    Keeps n s (s.newModule isClass superclass).2 := by
  have hext := extends_newModule h.heap isClass superclass
  refine keeps_of_extends h ⟨fun {m md} hm => ?_, h.heap.ptrs, fun ho hs => ?_⟩ hext rfl rfl rfl
  · simp only [State.newModule] at hm ⊢
    split at hm
    · next heq => exact heq ▸ Nat.lt_succ_self _
    · exact (h.heap.ids hm).trans (Nat.lt_succ_self _)
  · obtain ⟨md, hmd, hsup⟩ := h.heap.singleton ho hs
    exact ⟨md, hext.modules hmd, hsup⟩

theorem keeps_newObject (h : Sound s) {o : Obj} (ho : ∀ i, o.singleton = some i →
    ∃ md, s.heap.modules i = some md ∧ md.superclass = some o.cls) :
    Keeps n s (s.newObject o) := by
  refine keeps_of_extends h ⟨h.heap.ids, fun {p o'} hp => ?_, fun {p o' i} hp hi => ?_⟩
    ⟨id, fun {p o'} hp => ?_, rfl⟩ rfl rfl rfl
  · simp only [State.newObject] at hp ⊢
    split at hp
    · next heq => exact heq ▸ Nat.lt_succ_self _
    · exact (h.heap.ptrs hp).trans (Nat.lt_succ_self _)
  · simp only [State.newObject] at hp
    split at hp
    · obtain rfl := Option.some.inj hp
      exact ho i hi
    · exact h.heap.singleton hp hi
  · have hne : p ≠ s.heap.nextPtr := Nat.ne_of_lt (h.heap.ptrs hp)
    simpa [State.newObject, hne] using hp

theorem keeps_metaOf (h : Sound s) (m : Nat) : Keeps n s (s.metaOf m).2 := by
  unfold State.metaOf
  split
  · exact .refl h
  · have hnew := keeps_newModule (n := n) h true none
    exact hnew.trans (keeps_write hnew.sound m (fun _ => rfl))

theorem keeps_singletonOf (h : Sound s) (v : Value) : Keeps n s (s.singletonOf v).2 := by
  cases v with
  | core c => exact .refl h
  | mod m => exact keeps_metaOf h m
  | obj p =>
    cases ho : s.heap.objects p with
    | none =>
      simp only [State.singletonOf, ho]
      exact .refl h
    | some o =>
      cases hs : o.singleton with
      | some i =>
        simp only [State.singletonOf, ho, hs]
        exact .refl h
      | none =>
        simp only [State.singletonOf, ho, hs]
        have hnew := keeps_newModule (n := n) h true (some o.cls)
        refine hnew.trans (keeps_of_bump hnew.sound ⟨hnew.sound.heap.ids, fun {q o'} hq => ?_,
          fun {q o' i} hq hi => ?_⟩ rfl rfl rfl)
        · simp only at hq
          split at hq
          · next heq =>
            rw [heq]
            exact h.heap.ptrs ho
          · exact hnew.sound.heap.ptrs hq
        · simp only at hq
          split at hq
          · obtain rfl := Option.some.inj hq
            obtain rfl : (s.newModule true (some o.cls)).1 = i := Option.some.inj hi
            exact ⟨⟨true, some o.cls, fun _ => none, [], [], none⟩,
              by simp [State.newModule, State.bump], rfl⟩
          · exact hnew.sound.heap.singleton hq hi

/-! ## Lookups -/

theorem keeps_lookupChainRc (h : Sound s) (v : Value) :
    Keeps n s (s.lookupChainRc n v).2 := by
  unfold State.lookupChainRc
  cases hk : s.heap.chainKey v with
  | none => exact .refl h
  | some key =>
    rw [lookupChainUncached_eq_ofKey h.heap n hk]
    exact ⟨⟨h.heap, h.chains.fetch key _, h.methods⟩, Nat.le_refl _,
      fun hf => ⟨hf.chains.fetch key, hf.methods⟩, fun hlt => absurd hlt (Nat.lt_irrefl _)⟩

theorem lookupChainRc_heap (v : Value) :
    (s.lookupChainRc n v).2.heap = s.heap ∧ (s.lookupChainRc n v).2.epoch = s.epoch ∧
      (s.lookupChainRc n v).2.methodCache = s.methodCache := by
  unfold State.lookupChainRc
  cases s.heap.chainKey v <;> exact ⟨rfl, rfl, rfl⟩

theorem lookupChainRc_eq (h : Sound s) (hf : Fresh n s) (v : Value) :
    (s.lookupChainRc n v).1 = s.heap.lookupChainUncached n v := by
  unfold State.lookupChainRc
  cases hk : s.heap.chainKey v with
  | none =>
    cases v with
    | core c => cases hk
    | mod m => cases hk
    | obj p =>
      have ho := Option.map_eq_none_iff.mp hk
      simp [Heap.lookupChainUncached, ho]
  | some key =>
    rw [lookupChainUncached_eq_ofKey h.heap n hk]
    exact hf.chains.fetch_eq key

theorem findMethod_eq (h : Sound s) (hf : Fresh n s) (v : Value) (name : String) :
    (s.findMethod n v name).1 = s.heap.findMethodUncached n v name := by
  have hchain := lookupChainRc_eq h hf v
  unfold Heap.findMethodUncached
  rw [← hchain]
  cases hk : s.heap.chainKey v with
  | none => simp [State.findMethod, State.lookupChainRc, hk]
  | some key =>
    cases hh : s.methodCache.hit s.epoch (key, name) with
    | some r =>
      simp only [State.findMethod, hk, hh]
      rw [hchain, lookupChainUncached_eq_ofKey h.heap n hk]
      exact (hf.methods.of_hit hh).symm
    | none =>
      simp only [State.findMethod, hk, hh]
      rcases s.lookupChainRc n v with ⟨_ | chain, s'⟩ <;> rfl

theorem keeps_findMethod (h : Sound s) (v : Value) (name : String) :
    Keeps n s (s.findMethod n v name).2 := by
  unfold State.findMethod
  cases hk : s.heap.chainKey v with
  | none => exact .refl h
  | some key =>
    cases hh : s.methodCache.hit s.epoch (key, name) with
    | some r =>
      simp only [hh]
      exact .refl h
    | none =>
      have hkeeps := keeps_lookupChainRc (n := n) h v
      obtain ⟨hheap, hepoch, -⟩ := lookupChainRc_heap (s := s) (n := n) v
      have heq := fun hf => lookupChainRc_eq (n := n) h hf v
      rw [lookupChainUncached_eq_ofKey h.heap n hk] at heq
      simp only [hh]
      generalize s.lookupChainRc n v = r at hkeeps hheap hepoch heq
      obtain ⟨_ | chain, s'⟩ := r
      · exact hkeeps
      · simp only at hheap hepoch hkeeps heq
        refine ⟨⟨hkeeps.sound.heap, hkeeps.sound.chains, ?_⟩, hkeeps.epoch, fun hf => ?_,
          fun hlt => absurd (hepoch ▸ hlt) (Nat.lt_irrefl _)⟩
        · exact hepoch ▸ hkeeps.sound.methods.store _ _
        · refine ⟨(hkeeps.fresh hf).chains, ?_⟩
          rw [← hepoch]
          refine (hkeeps.fresh hf).methods.store ?_
          rw [hheap]
          exact Option.map_eq_some_iff.mpr ⟨chain, (heq hf).symm, rfl⟩

/-! ## Runs -/

theorem keeps_ofSingleton (h : Sound s) (v : Value) {f : Nat → State β → State β}
    (hf : ∀ i {t : State β}, Sound t → Keeps n t (f i t)) :
    Keeps n s (match s.singletonOf v with
      | (some i, t) => f i t
      | (none, t) => t) := by
  have hkeeps := keeps_singletonOf (n := n) h v
  generalize s.singletonOf v = r at hkeeps ⊢
  obtain ⟨_ | i, t⟩ := r
  · exact hkeeps
  · exact hkeeps.trans (hf i hkeeps.sound)

theorem keeps_define (h : Sound s) (target : Nat) (name : String) (body : β) :
    Keeps n s (s.define target name body) := by
  have hinsert := keeps_insertMethod (n := n) h target name (.user ⟨name, target, body⟩)
  unfold State.define
  split
  · have hmeta := keeps_metaOf (n := n) hinsert.sound target
    exact (hinsert.trans hmeta).trans (keeps_insertMethod hmeta.sound _ name _)
  · exact hinsert

theorem keeps_defineAttr (h : Sound s) (m : Nat) (name : String) (reader writer : Bool) :
    Keeps n s (s.defineAttr m name reader writer) := by
  have hreader : Keeps n s
      (if reader then s.insertMethod m name (.native ("__attr_r_" ++ name)) else s) := by
    split
    · exact keeps_insertMethod h m name _
    · exact .refl h
  unfold State.defineAttr
  cases writer with
  | true => exact hreader.trans (keeps_insertMethod hreader.sound m _ _)
  | false => exact hreader

theorem keeps_copyMethods (h : Sound s) (m i : Nat) (names : List String) :
    Keeps n s (names.foldl (fun t name =>
      match t.heap.method m name with
      | some me => t.insertMethod i name me
      | none => t) s) := by
  induction names generalizing s with
  | nil => exact .refl h
  | cons name names ih =>
    have hone : Keeps n s (match s.heap.method m name with
        | some me => s.insertMethod i name me
        | none => s) := by
      split
      · exact keeps_insertMethod h i name _
      · exact .refl h
    exact hone.trans (ih hone.sound)

theorem keeps_moduleFunction (h : Sound s) (m : Nat) (names : List String) :
    Keeps n s (s.moduleFunction m names) := by
  have hmeta := keeps_metaOf (n := n) h m
  unfold State.moduleFunction
  split
  · exact keeps_of_extends h ⟨h.heap.ids, h.heap.ptrs, h.heap.singleton⟩ ⟨id, id, rfl⟩ rfl rfl rfl
  · exact hmeta.trans (keeps_copyMethods hmeta.sound m _ names)

theorem keeps_extend (h : Sound s) (recv : Value) (e : Nat) :
    Keeps n s (s.extend recv e) := by
  refine keeps_ofSingleton h recv (f := fun i t =>
    if e ∈ ((t.heap.modules i).map (·.includes)).getD [] then t
    else t.write i (fun md => { md with includes := md.includes ++ [e] })) fun i t ht => ?_
  split
  · exact .refl ht
  · exact keeps_write ht i (fun _ => rfl)

theorem keeps_copyObject (h : Sound s) (clone : Bool) (p : Nat) :
    Keeps n s (s.copyObject clone p) := by
  unfold State.copyObject
  cases ho : s.heap.objects p with
  | none => exact .refl h
  | some o =>
    refine keeps_newObject h fun i hi => ?_
    cases clone with
    | true => exact h.heap.singleton ho hi
    | false => cases hi

/-- An `include` or `prepend` that changes its module. -/
def mixes (s : State β) : Op β → Bool
  | .mixin prepend m inc =>
    match s.heap.modules m with
    | some md => !(if prepend then md.prepends else md.includes).contains inc
    | none => false
  | _ => false

theorem mixin_eq_of_not_mixes {prepend : Bool} {m inc : Nat}
    (h : mixes s (.mixin prepend m inc) = false) : s.mixin prepend m inc = s := by
  have hmodules : (s.mixin prepend m inc).heap.modules = s.heap.modules := by
    funext i
    simp only [State.mixin]
    split
    · next hi =>
      subst hi
      cases hmd : s.heap.modules i with
      | none => rfl
      | some md =>
        simp only [mixes, hmd, Bool.not_eq_false', List.contains_iff_mem] at h
        cases prepend <;> simp_all
    · rfl
  calc s.mixin prepend m inc
      = { s with heap.modules := (s.mixin prepend m inc).heap.modules } := rfl
    _ = s := by rw [hmodules]

theorem sound_mixin (h : Sound s) (prepend : Bool) (m inc : Nat) :
    Sound (s.mixin prepend m inc) := by
  refine ⟨⟨fun {i md} hi => ?_, h.heap.ptrs, fun {p o i} ho hi => ?_⟩, h.chains, h.methods⟩
  · simp only [State.mixin] at hi
    split at hi
    · obtain ⟨md', hmd', -⟩ := Option.map_eq_some_iff.mp hi
      exact h.heap.ids hmd'
    · exact h.heap.ids hi
  · obtain ⟨md, hmd, hsup⟩ := h.heap.singleton ho hi
    simp only [State.mixin, hmd, Option.map_some]
    split
    · refine ⟨_, rfl, ?_⟩
      cases prepend with
      | true => by_cases hmem : inc ∈ md.prepends <;> simp [hmem, hsup]
      | false => by_cases hmem : inc ∈ md.includes <;> simp [hmem, hsup]
    · exact ⟨md, rfl, hsup⟩

theorem keeps_step (h : Sound s) {op : Op β} (hop : mixes s op = false) :
    Keeps n s (step n s op) := by
  cases op with
  | freshId => exact keeps_freshId h
  | newModule isClass superclass => exact keeps_newModule h isClass superclass
  | newObject cls =>
    refine keeps_newObject h fun i hi => ?_
    cases hi
  | copyObject clone p => exact keeps_copyObject h clone p
  | singletonOf v => exact keeps_singletonOf h v
  | define target name body => exact keeps_define h target name body
  | defineSelf recv name body =>
    exact keeps_ofSingleton h recv (fun i _ ht => keeps_insertMethod ht i name _)
  | defineMethod m name body => exact keeps_insertMethod h m name _
  | defineSingletonMethod recv name body =>
    exact keeps_ofSingleton h recv (fun i _ ht => keeps_insertMethod ht i name _)
  | aliasMethod target name source =>
    simp only [step, State.aliasMethod]
    split
    · exact .refl h
    · exact keeps_insertMethod h target name _
  | defineAttr m name reader writer => exact keeps_defineAttr h m name reader writer
  | undef m name => exact keeps_insertMethod h m name _
  | removeMethod m name => exact keeps_write h m (fun _ => rfl)
  | moduleFunction m names => exact keeps_moduleFunction h m names
  | extend recv e => exact keeps_extend h recv e
  | mixin prepend m inc =>
    simp only [step, mixin_eq_of_not_mixes hop]
    exact .refl h
  | lookupChain v => exact keeps_lookupChainRc h v
  | findMethod v name => exact keeps_findMethod h v name
  | elsewhere => exact keeps_bump h

/-- No epoch begins where a mixin changes its module. -/
theorem mixes_step (h : Sound s) {op : Op β} (hop : mixes s op = true) :
    Sound (step n s op) ∧ (step n s op).epoch = s.epoch := by
  cases op with
  | mixin prepend m inc => exact ⟨sound_mixin h prepend m inc, rfl⟩
  | _ => cases hop

/-- Each change by a mixin is followed by a new epoch. -/
theorem fresh_run (h : Sound s) (ops : List (Op β))
    (hstart : Fresh n s ∨ s.epoch < (run (step n) s ops).epoch)
    (hmixes : Along (step n) s ops (fun u op => mixes u op = true →
      u.epoch < (run (step n) s ops).epoch)) :
    Sound (run (step n) s ops) ∧ Fresh n (run (step n) s ops) := by
  induction ops generalizing s with
  | nil => exact ⟨h, hstart.resolve_right (Nat.lt_irrefl _)⟩
  | cons op ops ih =>
    obtain ⟨hfirst, hrest⟩ := (along_cons_iff _ s op ops _).mp hmixes
    rw [run_cons] at hfirst hrest hstart ⊢
    cases hop : mixes s op with
    | true =>
      obtain ⟨hsound, hepoch⟩ := mixes_step (n := n) h hop
      exact ih hsound (.inr (hepoch ▸ hfirst hop)) hrest
    | false =>
      have hkeeps := keeps_step (n := n) h hop
      refine ih hkeeps.sound ?_ hrest
      rcases hstart with hf | hlt
      · exact .inl (hkeeps.fresh hf)
      · rcases hkeeps.epoch.lt_or_eq with hgrown | hsame
        · exact .inl (hkeeps.renewed hgrown)
        · exact .inr (hsame ▸ hlt)

/-- The caches are empty. -/
structure Started (s : State β) : Prop where
  heap : s.heap.WellFormed
  chains : s.chainCache = .empty
  methods : s.methodCache = .empty

/-- In any run after which an epoch has begun since the last `include` or `prepend` that changed
a module, `find_method` finds through its caches what it finds without them. -/
theorem findMethod_run (hs : Started s) (ops : List (Op β))
    (hmixes : Along (step n) s ops (fun u op => mixes u op = true →
      u.epoch < (run (step n) s ops).epoch)) (v : Value) (name : String) :
    ((run (step n) s ops).findMethod n v name).1 =
      (run (step n) s ops).heap.findMethodUncached n v name := by
  have hsound : Sound s := ⟨hs.heap, hs.chains ▸ EpochCache.bounded_empty,
    hs.methods ▸ EpochCache.bounded_empty⟩
  have hfresh : Fresh n s := ⟨hs.chains ▸ EpochCache.current_empty,
    hs.methods ▸ EpochCache.current_empty⟩
  obtain ⟨hend, hcurrent⟩ := fresh_run hsound ops (.inl hfresh) hmixes
  exact findMethod_eq hend hcurrent v name

/-- `BasicObject`, `Object`, `Module` and `Class`. -/
def bareHeap : Heap Nat where
  nextId := 100
  nextPtr := 0
  modules
    | 1 => some ⟨true, none, fun _ => none, [], [], none⟩
    | 2 => some ⟨true, some 1, fun _ => none, [], [], none⟩
    | 3 => some ⟨true, some 2, fun _ => none, [], [], none⟩
    | 4 => some ⟨true, some 3, fun _ => none, [], [], none⟩
    | _ => none
  objects := fun _ => none
  moduleFunction := fun _ => false
  classes
    | "Class" => 4
    | "Module" => 3
    | _ => 2

def bareState : State Nat := ⟨bareHeap, 1, .empty, .empty⟩

theorem started_bareState : Started bareState where
  heap := by
    refine ⟨fun {m md} hm => ?_, fun {p o} ho => ?_, fun {p o i} ho => ?_⟩
    · simp only [bareState, bareHeap] at hm
      split at hm
      · decide
      · decide
      · decide
      · decide
      · cases hm
    · cases ho
    · cases ho
  chains := rfl
  methods := rfl

/-- A lookup fails, then the class includes a module with the method. -/
def includeLate : List (Op Nat) :=
  [.newModule true (some 2), .newModule false none, .define 101 "render" 7, .newObject 100,
    .findMethod (.obj 0) "render", .mixin false 100 101]

theorem findMethod_run_includeLate :
    ((run (step 9) bareState (includeLate ++ [.define 100 "name" 8])).findMethod 9 (.obj 0)
      "render").1 = some (some (.user ⟨"render", 101, 7⟩, 101)) := by
  have h := findMethod_run (n := 9) started_bareState (includeLate ++ [.define 100 "name" 8])
    (by simp only [includeLate, List.cons_append, along_cons_iff]; decide +kernel)
    (.obj 0) "render"
  rw [h]
  decide +kernel

/-- Without the `def` that follows, the old answer stays. -/
example : ((run (step 9) bareState includeLate).findMethod 9 (.obj 0) "render").1 = some none ∧
    (run (step 9) bareState includeLate).heap.findMethodUncached 9 (.obj 0) "render" =
      some (some (.user ⟨"render", 101, 7⟩, 101)) := by
  decide +kernel

end PangeaOperator.LavaRuby
