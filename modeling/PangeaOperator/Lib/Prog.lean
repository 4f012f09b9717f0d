import PangeaOperator.Lib.Run

/-!
# Programs over fallible calls, interleaved with an environment

A program returns, raises, or waits for the reply to a call. Between its calls the
environment changes the state; a call may fail, before or after it took effect, and a
crash drops the program. `Safe` is a rely-guarantee triple: the calls that the program
makes are allowed at the state they meet, whatever happens in between.
-/

namespace PangeaOperator

inductive Prog (C : Type) (R : C → Type) (ε α : Type) where
  | ret (a : α)
  | raise (e : ε)
  | call (c : C) (k : R c → Prog C R ε α) (h : ε → Prog C R ε α)

/-- What serves the calls, and what the environment may do between them. -/
structure Server (C : Type) (R : C → Type) (σ ξ : Type) where
  serve : (c : C) → σ → R c × σ
  disturb : σ → ξ → σ

namespace Prog

variable {C : Type} {R : C → Type} {ε α β σ ξ : Type}

def perform (c : C) : Prog C R ε (R c) := .call c .ret .raise

def bind : Prog C R ε α → (α → Prog C R ε β) → Prog C R ε β
  | .ret a, f => f a
  | .raise e, _ => .raise e
  | .call c k h, f => .call c (fun r => (k r).bind f) (fun e => (h e).bind f)

/-- An error raised by the program is handed on. -/
def rescue : Prog C R ε α → (ε → Prog C R ε α) → Prog C R ε α
  | .ret a, _ => .ret a
  | .raise e, g => g e
  | .call c k h, g => .call c (fun r => (k r).rescue g) (fun e => (h e).rescue g)

instance : Monad (Prog C R ε) where
  pure := .ret
  bind := bind

@[simp] theorem pure_eq (a : α) : (pure a : Prog C R ε α) = .ret a := rfl
@[simp] theorem bind_eq (p : Prog C R ε α) (f : α → Prog C R ε β) : p >>= f = p.bind f := rfl

variable (S : Server C R σ ξ) (ok : C → σ → Prop)

/-- Every call of the program is allowed where it is made, and the program ends with `Q` or
`E`. A failed call may have taken effect. -/
def Safe (Q : α → σ → Prop) (E : ε → σ → Prop) : Prog C R ε α → σ → Prop
  | .ret a, s => ∀ xs, Q a (run S.disturb s xs)
  | .raise e, s => ∀ xs, E e (run S.disturb s xs)
  | .call c k h, s => ∀ xs,
    ok c (run S.disturb s xs) ∧
    (k (S.serve c (run S.disturb s xs)).1).Safe Q E (S.serve c (run S.disturb s xs)).2 ∧
    ∀ e, (h e).Safe Q E (run S.disturb s xs) ∧
      (h e).Safe Q E (S.serve c (run S.disturb s xs)).2

variable {S ok} {Q Q' : α → σ → Prop} {E E' : ε → σ → Prop} {s : σ}

theorem Safe.disturb {p : Prog C R ε α} (h : Safe S ok Q E p s) (x : ξ) :
    Safe S ok Q E p (S.disturb s x) := by
  cases p with
  | ret a => exact fun xs => h (x :: xs)
  | raise e => exact fun xs => h (x :: xs)
  | call c k g => exact fun xs => h (x :: xs)

theorem Safe.mono {p : Prog C R ε α} (h : Safe S ok Q E p s) (hq : ∀ a s, Q a s → Q' a s)
    (he : ∀ e s, E e s → E' e s) : Safe S ok Q' E' p s := by
  induction p generalizing s with
  | ret a => exact fun xs => hq a _ (h xs)
  | raise e => exact fun xs => he e _ (h xs)
  | call c k g ihk ihg =>
    intro xs
    obtain ⟨hok, hk, hg⟩ := h xs
    exact ⟨hok, ihk _ hk, fun e => ⟨ihg e (hg e).1, ihg e (hg e).2⟩⟩

theorem Safe.bind {p : Prog C R ε α} {f : α → Prog C R ε β} {P : β → σ → Prop}
    (h : Safe S ok Q E p s) (hf : ∀ a s, Q a s → Safe S ok P E (f a) s) :
    Safe S ok P E (p.bind f) s := by
  induction p generalizing s with
  | ret a => exact hf a s (h [])
  | raise e => exact h
  | call c k g ihk ihg =>
    intro xs
    obtain ⟨hok, hk, hg⟩ := h xs
    exact ⟨hok, ihk _ hk, fun e => ⟨ihg e (hg e).1, ihg e (hg e).2⟩⟩

theorem Safe.rescue {p : Prog C R ε α} {g : ε → Prog C R ε α} (h : Safe S ok Q E p s)
    (hg : ∀ e s, E e s → Safe S ok Q E' (g e) s) : Safe S ok Q E' (p.rescue g) s := by
  induction p generalizing s with
  | ret a => exact h
  | raise e => exact hg e s (h [])
  | call c k r ihk ihr =>
    intro xs
    obtain ⟨hok, hk, hr⟩ := h xs
    exact ⟨hok, ihk _ hk, fun e => ⟨ihr e (hr e).1, ihr e (hr e).2⟩⟩

variable (S ok) in
/-- From states with `G` the program is safe, it ends with `Q`, and it raises with `I`. -/
def Secures (I G : σ → Prop) (p : Prog C R ε α) (Q : α → σ → Prop) : Prop :=
  ∀ s, G s → Safe S ok Q (fun _ => I) p s

variable (S) in
/-- An assertion that neither the environment nor a call takes back. -/
structure Lasting (G : σ → Prop) : Prop where
  disturb : ∀ s x, G s → G (S.disturb s x)
  serve : ∀ c s, G s → G (S.serve c s).2

variable {I J G F : σ → Prop}

theorem lasting_const (P : Prop) : Lasting S (fun _ => P) where
  disturb _ _ h := h
  serve _ _ h := h

theorem Lasting.run (hg : Lasting S G) (hs : G s) (xs : List ξ) : G (run S.disturb s xs) :=
  run_invariant hg.disturb hs xs

theorem Secures.of_imp {p : Prog C R ε α} (h : Secures S ok I G p Q) (hf : ∀ s, F s → G s) :
    Secures S ok I F p Q :=
  fun s hs => h s (hf s hs)

theorem Secures.mono {p : Prog C R ε α} (h : Secures S ok I G p Q)
    (hq : ∀ a s, Q a s → Q' a s) : Secures S ok I G p Q' :=
  fun s hs => (h s hs).mono hq (fun _ _ => id)

theorem secures_ret (hg : Lasting S G) {a : α} (h : ∀ s, G s → Q a s) :
    Secures S ok I G (.ret a : Prog C R ε α) Q :=
  fun _ hs xs => h _ (hg.run hs xs)

theorem secures_raise (hg : Lasting S G) (hi : ∀ s, G s → I s) {e : ε} :
    Secures S ok I G (.raise e : Prog C R ε α) Q :=
  fun _ hs xs => hi _ (hg.run hs xs)

/-- A call whose reply brings a fact that lasts. -/
theorem secures_perform (hg : Lasting S G) (hi : ∀ s, G s → I s) {c : C} {K : R c → σ → Prop}
    (hok : ∀ s, G s → ok c s) (hlast : ∀ r, Lasting S (K r))
    (hreply : ∀ s, G s → K (S.serve c s).1 (S.serve c s).2) :
    Secures S ok I G (perform c : Prog C R ε (R c)) (fun r s => G s ∧ K r s) := by
  intro s hs xs
  have hxs := hg.run hs xs
  have hserved := hg.serve c _ hxs
  refine ⟨hok _ hxs, fun ys => ⟨hg.run hserved ys, (hlast _).run (hreply _ hxs) ys⟩, fun e => ?_⟩
  exact ⟨fun ys => hi _ (hg.run hxs ys), fun ys => hi _ (hg.run hserved ys)⟩

theorem secures_write (hg : Lasting S G) (hi : ∀ s, G s → I s) {c : C}
    (hok : ∀ s, G s → ok c s) : Secures S ok I G (perform c : Prog C R ε (R c)) (fun _ => G) :=
  (secures_perform (K := fun _ _ => True) hg hi hok (fun _ => lasting_const True)
    (fun _ _ => trivial)).mono (fun _ _ h => h.1)

theorem Secures.bind {p : Prog C R ε α} {f : α → Prog C R ε β} {P : β → σ → Prop}
    (h : Secures S ok I G p Q) (hf : ∀ a, Secures S ok I (Q a) (f a) P) :
    Secures S ok I G (p >>= f) P :=
  fun s hs => (h s hs).bind (fun a s ha => hf a s ha)

theorem Secures.rescue {p : Prog C R ε α} {g : ε → Prog C R ε α} (h : Secures S ok I G p Q)
    (hg : ∀ e, Secures S ok J I (g e) Q) : Secures S ok J G (p.rescue g) Q :=
  fun s hs => (h s hs).rescue (fun e s he => hg e s he)

/-! ## Whole executions -/

/-- Every call of the program, whatever the replies, is one of these. -/
def Only (calls : C → Prop) : Prog C R ε α → Prop
  | .ret _ => True
  | .raise _ => True
  | .call c k _ => calls c ∧ ∀ r, (k r).Only calls

variable {calls : C → Prop}

theorem only_perform {c : C} (h : calls c) : (perform c : Prog C R ε (R c)).Only calls :=
  ⟨h, fun _ => trivial⟩

theorem Only.bind {p : Prog C R ε α} {f : α → Prog C R ε β} (hp : p.Only calls)
    (hf : ∀ a, (f a).Only calls) : (p >>= f).Only calls := by
  induction p with
  | ret a => exact hf a
  | raise e => trivial
  | call c k g ihk _ => exact ⟨hp.1, fun r => ihk r (hp.2 r)⟩

theorem Only.rescue {p : Prog C R ε α} {g : ε → Prog C R ε α} (hp : p.Only calls)
    (hg : ∀ e, (g e).Only calls) : (p.rescue g).Only calls := by
  induction p with
  | ret a => trivial
  | raise e => exact hg e
  | call c k r ihk _ => exact ⟨hp.1, fun x => ihk x (hp.2 x)⟩

variable (S) in
/-- The program run to its end, every call answered; before each call the next list of
disturbances. What is left of the lists is returned as well. -/
def exec : Prog C R ε α → List (List ξ) → σ → Except ε α × List (List ξ) × σ
  | .ret a, xss, s => (.ok a, xss, s)
  | .raise e, xss, s => (.error e, xss, s)
  | .call c k _, xss, s =>
    let r := S.serve c (run S.disturb s (xss.headD []))
    (k r.1).exec xss.tail r.2

theorem exec_bind (p : Prog C R ε α) (f : α → Prog C R ε β) (xss : List (List ξ)) (s : σ) :
    (p >>= f).exec S xss s = match p.exec S xss s with
      | (.ok a, rest, t) => (f a).exec S rest t
      | (.error e, rest, t) => (.error e, rest, t) := by
  rw [bind_eq]
  induction p generalizing xss s with
  | ret a => rfl
  | raise e => rfl
  | call c k g ihk _ => exact ihk _ _ _

theorem exec_rescue (p : Prog C R ε α) (g : ε → Prog C R ε α) (xss : List (List ξ)) (s : σ) :
    (p.rescue g).exec S xss s = match p.exec S xss s with
      | (.ok a, rest, t) => (.ok a, rest, t)
      | (.error e, rest, t) => (g e).exec S rest t := by
  induction p generalizing xss s with
  | ret a => rfl
  | raise e => rfl
  | call c k r ihk _ => exact ihk _ _ _

theorem exec_invariant {I : σ → Prop} (henv : ∀ s x, I s → I (S.disturb s x))
    (hserve : ∀ c s, calls c → I s → I (S.serve c s).2) {p : Prog C R ε α}
    (hp : p.Only calls) (xss : List (List ξ)) {s : σ} (hs : I s) :
    I (p.exec S xss s).2.2 := by
  induction p generalizing xss s with
  | ret a => exact hs
  | raise e => exact hs
  | call c k g ihk _ =>
    exact ihk _ (hp.2 _) _ (hserve c _ hp.1 (run_invariant henv hs _))

end Prog

/-! ## Runs of one worker -/

inductive Move (ξ ι ε : Type) where
  | disturb (x : ξ)
  | start (j : ι)
  | reply
  | fault (applied : Bool) (e : ε)
  | crash

/-- The shared state and the program in flight. -/
structure Worker (C : Type) (R : C → Type) (ε σ : Type) where
  state : σ
  running : Option (Prog C R ε Unit)

namespace Worker

variable {C : Type} {R : C → Type} {ε σ ξ ι : Type} (S : Server C R σ ξ)
  (job : ι → σ → Prog C R ε Unit)

def move (w : Worker C R ε σ) : Move ξ ι ε → Worker C R ε σ
  | .disturb x => { w with state := S.disturb w.state x }
  | .start j =>
    match w.running with
    | none => { w with running := some (job j w.state) }
    | some _ => w
  | .reply =>
    match w.running with
    | some (.call c k _) => ⟨(S.serve c w.state).2, some (k (S.serve c w.state).1)⟩
    | _ => { w with running := none }
  | .fault applied e =>
    match w.running with
    | some (.call c _ h) => ⟨if applied then (S.serve c w.state).2 else w.state, some (h e)⟩
    | _ => { w with running := none }
  | .crash => { w with running := none }

/-- The call the program in flight waits for. -/
def waiting (w : Worker C R ε σ) : Option C :=
  match w.running with
  | some (.call c _ _) => some c
  | _ => none

/-- The call that a move puts into effect. -/
def effect (w : Worker C R ε σ) : Move ξ ι ε → Option C
  | .reply => w.waiting
  | .fault applied _ => if applied then w.waiting else none
  | .disturb _ | .start _ | .crash => none

variable {S job} {ok : C → σ → Prop} {inv : σ → Prop}

/-- The state keeps its invariant and what is in flight is safe there. -/
def Sound (S : Server C R σ ξ) (ok : C → σ → Prop) (inv : σ → Prop) (w : Worker C R ε σ) :
    Prop :=
  inv w.state ∧ ∀ p, w.running = some p → p.Safe S ok (fun _ _ => True) (fun _ _ => True) w.state

variable (henv : ∀ s x, inv s → inv (S.disturb s x))
  (hserve : ∀ c s, ok c s → inv s → inv (S.serve c s).2)
  (hjob : ∀ j s, inv s → (job j s).Safe S ok (fun _ _ => True) (fun _ _ => True) s)

include henv hserve hjob in
theorem sound_move (w : Worker C R ε σ) (m : Move ξ ι ε) (h : Sound S ok inv w) :
    Sound S ok inv (move S job w m) := by
  obtain ⟨hinv, hsafe⟩ := h
  cases m with
  | disturb x =>
    refine ⟨henv _ x hinv, fun p hp => ?_⟩
    exact (hsafe p hp).disturb x
  | start j =>
    cases hr : w.running with
    | none =>
      refine ⟨by simpa [move, hr] using hinv, fun p hp => ?_⟩
      obtain rfl : job j w.state = p := by simpa [move, hr] using hp
      simpa [move, hr] using hjob j w.state hinv
    | some q => simpa [move, hr, Sound] using And.intro hinv (fun p hp => hsafe p (hr ▸ hp))
  | reply =>
    cases hr : w.running with
    | none => simpa [move, hr, Sound] using hinv
    | some q =>
      cases q with
      | ret a => simpa [move, hr, Sound] using hinv
      | raise e => simpa [move, hr, Sound] using hinv
      | call c k g =>
        obtain ⟨hok, hk, _⟩ := hsafe _ hr []
        simpa [move, hr, Sound] using And.intro (hserve c _ hok hinv) hk
  | fault applied e =>
    cases hr : w.running with
    | none => simpa [move, hr, Sound] using hinv
    | some q =>
      cases q with
      | ret a => simpa [move, hr, Sound] using hinv
      | raise e' => simpa [move, hr, Sound] using hinv
      | call c k g =>
        obtain ⟨hok, _, hg⟩ := hsafe _ hr []
        cases applied with
        | true => simpa [move, hr, Sound] using And.intro (hserve c _ hok hinv) (hg e).2
        | false => simpa [move, hr, Sound] using And.intro hinv (hg e).1
  | crash => simpa [move, Sound] using hinv

theorem ok_of_waiting {w : Worker C R ε σ} (h : Sound S ok inv w) {c : C}
    (hc : w.waiting = some c) : ok c w.state := by
  unfold waiting at hc
  split at hc
  · next d k g hr =>
    obtain rfl : d = c := Option.some.inj hc
    exact (h.2 _ hr []).1
  · cases hc

theorem ok_of_sound {w : Worker C R ε σ} (h : Sound S ok inv w) (m : Move ξ ι ε) {c : C}
    (hc : effect w m = some c) : ok c w.state := by
  cases m with
  | reply => exact ok_of_waiting h hc
  | fault applied e =>
    cases applied with
    | true => exact ok_of_waiting h hc
    | false => cases hc
  | disturb x => cases hc
  | start j => cases hc
  | crash => cases hc

theorem sound_idle {s : σ} (hs : inv s) : Sound S ok inv (⟨s, none⟩ : Worker C R ε σ) := by
  refine ⟨hs, fun p hp => ?_⟩
  cases hp

include henv hserve hjob in
/-- In a run from a state with the invariant and nothing in flight, every call that takes
effect is allowed. -/
theorem along_ok {s : σ} (hs : inv s) (ms : List (Move ξ ι ε)) :
    Along (move S job) ⟨s, none⟩ ms (fun w m => ∀ c, effect w m = some c → ok c w.state) :=
  along_of_invariant (sound_move henv hserve hjob) (fun _ m h _ hc => ok_of_sound h m hc)
    (sound_idle hs) ms

end Worker

end PangeaOperator
