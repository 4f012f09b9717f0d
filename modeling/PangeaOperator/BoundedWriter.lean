import PangeaOperator.Lib.Run
import PangeaOperator.Lib.SipHash

/-!
# The bounded log writer

`observability/bounded_writer.rs`: the writer of one log record has a budget of bytes, and what goes
beyond it is dropped behind a marker. The inner writer answers as it likes: with fewer bytes than it
is handed, and with an error at any call.
-/

namespace PangeaOperator

open SipHash

/-- An answer of the inner writer to one call. It takes no more than it is handed. -/
inductive Answer
  | ok (n : Nat)
  | interrupted
  | error
  deriving DecidableEq, Repr

/-- What the inner writer has taken at the end of a `write_all`, whether all of it, and the answers
that are left. -/
structure Written where
  accepted : List UInt8
  all : Bool
  rest : List Answer

/-- `Write::write_all`. Beyond the list of its answers the inner writer fails. -/
def writeAll (buf : List UInt8) : List Answer → Written
  | [] => ⟨[], buf.isEmpty, []⟩
  | answer :: answers =>
    if buf = [] then ⟨[], true, answer :: answers⟩
    else
      match answer with
      | .interrupted => writeAll buf answers
      | .error => ⟨[], false, answers⟩
      | .ok n =>
        if n = 0 then ⟨[], false, answers⟩
        else
          let written := writeAll (buf.drop n) answers
          { written with accepted := buf.take n ++ written.accepted }

/-- `Write::write`: the number of bytes taken. -/
def writeOnce (buf : List UInt8) : List Answer → Option Nat
  | .ok n :: _ => some (min n buf.length)
  | _ => none

namespace BoundedWriter

/-- Where a byte that the inner writer has taken came from. -/
inductive Part
  | record
  | marker
  deriving DecidableEq, Repr

def tag (part : Part) (bytes : List UInt8) : List (Part × UInt8) := bytes.map (fun b => (part, b))

def marker : List UInt8 := utf8 "\x22...CLIPPED (pangea bounded log writer)\x22\n"

structure ClipStats where
  recordsClipped : UInt64
  bytesShed : UInt64

structure Bound where
  bytes : Nat
  min_le : 512 ≤ bytes

def Bound.new (bytes : Nat) : Option Bound := if h : 512 ≤ bytes then some ⟨bytes, h⟩ else none

end BoundedWriter

open BoundedWriter

/-- `accepted` is what the inner writer has taken. -/
structure BoundedWriter where
  accepted : List (Part × UInt8)
  remaining : Nat
  stats : ClipStats
  clipped : Bool

namespace BoundedWriter

def makeWriter (bound : Bound) (stats : ClipStats) : BoundedWriter :=
  ⟨[], bound.bytes, stats, false⟩

section Write

variable (w : BoundedWriter) (buf : List UInt8) (answers : List Answer)

def accept (part : Part) (bytes : List UInt8) : BoundedWriter :=
  { w with accepted := w.accepted ++ tag part bytes }

def shed (n : Nat) : BoundedWriter :=
  { w with stats := { w.stats with bytesShed := w.stats.bytesShed + UInt64.ofNat n } }

/-- What the call reports as taken; none where it fails. -/
def write : Option Nat × BoundedWriter :=
  if w.clipped then (some buf.length, w.shed buf.length)
  else if buf.length ≤ w.remaining then
    match writeOnce buf answers with
    | none => (none, w)
    | some n =>
      (some n, { w.accept .record (buf.take n) with remaining := w.remaining - n })
  else
    let head := buf.take w.remaining
    let first := writeAll head answers
    let second := writeAll marker first.rest
    if first.all = false then (none, w.accept .record first.accepted)
    else if second.all = false then
      (none, (w.accept .record first.accepted).accept .marker second.accepted)
    else
      let w' := (w.accept .record first.accepted).accept .marker second.accepted
      (some buf.length,
        { w' with
          remaining := 0
          clipped := true
          stats :=
            { recordsClipped := w.stats.recordsClipped + 1
              bytesShed := w.stats.bytesShed + UInt64.ofNat (buf.length - w.remaining) } })

/-- The inner writer takes some of what a clip hands it and fails before it has all of it. -/
def Torn : Prop :=
  w.clipped = false ∧ w.remaining < buf.length ∧
    let head := buf.take w.remaining
    let first := writeAll head answers
    let second := writeAll marker first.rest
    (first.all = false ∧ first.accepted ≠ []) ∨
      (first.all = true ∧ second.all = false ∧ (head ≠ [] ∨ second.accepted ≠ []))

instance : Decidable (w.Torn buf answers) := by
  unfold Torn
  infer_instance

end Write

section Steps

theorem writeAll_nil (answers : List Answer) : writeAll [] answers = ⟨[], true, answers⟩ := by
  cases answers with
  | nil => rfl
  | cons answer answers => simp [writeAll.eq_def]

theorem writeAll_all {buf : List UInt8} {answers : List Answer}
    (h : (writeAll buf answers).all = true) : (writeAll buf answers).accepted = buf := by
  induction answers generalizing buf with
  | nil => exact (List.isEmpty_iff.mp h).symm
  | cons answer answers ih =>
    by_cases hbuf : buf = []
    · rw [hbuf, writeAll_nil]
    · cases answer with
      | interrupted =>
        rw [writeAll, if_neg hbuf] at h ⊢
        exact ih h
      | error => simp [writeAll, hbuf] at h
      | ok n =>
        by_cases hn : n = 0
        · simp [writeAll, hbuf, hn] at h
        · simp only [writeAll, if_neg hbuf, if_neg hn] at h ⊢
          rw [ih h, List.take_append_drop]

variable {w : BoundedWriter} {buf : List UInt8} {answers : List Answer}

/-- A writer that has passed on its budget, and the marker behind it. -/
def clippedAt (w : BoundedWriter) (buf : List UInt8) : BoundedWriter where
  accepted := w.accepted ++ tag .record (buf.take w.remaining) ++ tag .marker marker
  remaining := 0
  clipped := true
  stats :=
    { recordsClipped := w.stats.recordsClipped + 1
      bytesShed := w.stats.bytesShed + UInt64.ofNat (buf.length - w.remaining) }

/-- What a call does that does not tear a clip. -/
inductive Outcome (w : BoundedWriter) (buf : List UInt8) : Option Nat × BoundedWriter → Prop
  | dropped (hc : w.clipped = true) : Outcome w buf (some buf.length, w.shed buf.length)
  | passed (n : Nat) (hn : n ≤ buf.length) (hc : w.clipped = false)
      (hle : buf.length ≤ w.remaining) :
      Outcome w buf (some n, { w.accept .record (buf.take n) with remaining := w.remaining - n })
  | failed : Outcome w buf (none, w)
  | clips (hc : w.clipped = false) (hlt : w.remaining < buf.length) :
      Outcome w buf (some buf.length, w.clippedAt buf)

theorem accept_nil (w : BoundedWriter) (part : Part) : w.accept part [] = w := by
  rw [accept, tag, List.map_nil, List.append_nil]

theorem write_outcome (h : ¬ w.Torn buf answers) : Outcome w buf (w.write buf answers) := by
  unfold write
  split
  · next hc => exact .dropped hc
  · next hc =>
    rw [Bool.not_eq_true] at hc
    split
    · next hle =>
      cases answers with
      | nil => exact .failed
      | cons answer answers =>
        cases answer with
        | ok n =>
          have hn : min n buf.length ≤ buf.length := Nat.min_le_right _ _
          exact .passed (min n buf.length) hn hc hle
        | interrupted => exact .failed
        | error => exact .failed
    · next hlt =>
      have hclip : ¬ (_ ∨ _) := fun htorn => h ⟨hc, not_le.mp hlt, htorn⟩
      obtain ⟨hfirst, hsecond⟩ := not_or.mp hclip
      dsimp only at hfirst hsecond ⊢
      split
      · next hall =>
        have hnil : (writeAll (buf.take w.remaining) answers).accepted = [] := by
          by_contra hne
          exact hfirst ⟨hall, hne⟩
        rw [hnil, accept_nil]
        exact .failed
      · next hall =>
        rw [Bool.not_eq_false] at hall
        split
        · next hmark =>
          have hnil : ¬ (_ ∨ _) := fun htorn => hsecond ⟨hall, hmark, htorn⟩
          obtain ⟨hhead, hmarker⟩ := not_or.mp hnil
          rw [not_not.mp hmarker, writeAll_all hall, not_not.mp hhead, accept_nil, accept_nil]
          exact .failed
        · next hmark =>
          rw [Bool.not_eq_false] at hmark
          rw [writeAll_all hall, writeAll_all hmark]
          exact .clips hc (not_le.mp hlt)

end Steps

section Records

/-- A call, with what the inner writer answers while it runs. -/
structure Call where
  buf : List UInt8
  answers : List Answer

/-- The writer of a record and the bytes offered to it. A byte is offered by the call that takes it:
what a call leaves is for the next one to offer again. -/
structure Record where
  writer : BoundedWriter
  offered : List UInt8

def start (bound : Bound) (stats : ClipStats) : Record := ⟨makeWriter bound stats, []⟩

def step (r : Record) (call : Call) : Record :=
  let result := r.writer.write call.buf call.answers
  ⟨result.2, r.offered ++ call.buf.take (result.1.getD 0)⟩

/-- While nothing is clipped all that was offered has been passed on; from then on the budget and
the marker have, and the rest is counted. -/
inductive Inv (bound : Bound) (stats : ClipStats) : Record → Prop
  | within (offered : List UInt8) (remaining : Nat) (h : offered.length + remaining = bound.bytes) :
      Inv bound stats ⟨⟨tag .record offered, remaining, stats, false⟩, offered⟩
  | clipped (offered : List UInt8) (h : bound.bytes ≤ offered.length) :
      Inv bound stats
        ⟨⟨tag .record (offered.take bound.bytes) ++ tag .marker marker, 0,
            ⟨stats.recordsClipped + 1,
              stats.bytesShed + UInt64.ofNat (offered.length - bound.bytes)⟩, true⟩, offered⟩

variable {bound : Bound} {stats : ClipStats} {r : Record} {call : Call}

theorem tag_append (part : Part) (a b : List UInt8) :
    tag part (a ++ b) = tag part a ++ tag part b :=
  List.map_append

theorem Inv.step (h : ¬ r.writer.Torn call.buf call.answers) (hinv : Inv bound stats r) :
    Inv bound stats (step r call) := by
  have hout := write_outcome h
  unfold BoundedWriter.step
  generalize hw : r.writer.write call.buf call.answers = result at hout
  cases hinv with
  | within offered remaining hlen =>
    cases hout with
    | dropped hc => exact absurd hc Bool.false_ne_true
    | passed n hn hc hle =>
      have hwithin := @Inv.within bound stats (offered ++ call.buf.take n)
        (remaining - n) (by
          have hle' : call.buf.length ≤ remaining := hle
          rw [List.length_append, List.length_take]
          omega)
      rw [tag_append] at hwithin
      exact hwithin
    | failed =>
      simp only [Option.getD_none, List.take_zero, List.append_nil]
      exact Inv.within offered remaining hlen
    | clips hc hlt =>
      have hlt' : remaining < call.buf.length := hlt
      have hall : call.buf.take call.buf.length = call.buf := List.take_length
      have hclipped := @Inv.clipped bound stats (offered ++ call.buf) (by
        rw [List.length_append]
        omega)
      have hhead : (offered ++ call.buf).take bound.bytes = offered ++ call.buf.take remaining := by
        rw [← hlen, List.take_length_add_append]
      have hshed : (offered ++ call.buf).length - bound.bytes = call.buf.length - remaining := by
        rw [List.length_append]
        omega
      rw [hhead, hshed, tag_append] at hclipped
      simp only [Option.getD_some, hall]
      exact hclipped
  | clipped offered hlen =>
    cases hout with
    | dropped hc =>
      have hall : call.buf.take call.buf.length = call.buf := List.take_length
      have hclipped := @Inv.clipped bound stats (offered ++ call.buf) (by
        rw [List.length_append]
        omega)
      have hsum : (offered ++ call.buf).length - bound.bytes =
          offered.length - bound.bytes + call.buf.length := by
        rw [List.length_append]
        omega
      rw [List.take_append_of_le_length hlen, hsum, UInt64.ofNat_add,
        ← UInt64.add_assoc] at hclipped
      simp only [Option.getD_some, hall]
      exact hclipped
    | passed n hn hc hle => exact absurd hc.symm Bool.false_ne_true
    | failed =>
      simp only [Option.getD_none, List.take_zero, List.append_nil]
      exact Inv.clipped offered hlen
    | clips hc hlt => exact absurd hc.symm Bool.false_ne_true

/-- The record stays within its bound: what the inner writer has taken is a part of what was
offered, from its start, and behind it the marker at most once; and what was not passed on is
counted. -/
structure Kept (bound : Bound) (stats : ClipStats) (r : Record) : Prop where
  bounded : r.writer.accepted.length ≤ bound.bytes + marker.length
  parts : ∃ passed mark, r.writer.accepted = tag .record passed ++ tag .marker mark ∧
    passed <+: r.offered ∧ (mark = [] ∨ mark = marker) ∧
    (r.offered.length < 2 ^ 64 →
      passed.length + (r.writer.stats.bytesShed - stats.bytesShed).toNat = r.offered.length)

theorem length_tag (part : Part) (bytes : List UInt8) : (tag part bytes).length = bytes.length :=
  List.length_map _

theorem Inv.kept (h : Inv bound stats r) : Kept bound stats r := by
  cases h with
  | within offered remaining hlen =>
    refine ⟨?_, offered, [], (List.append_nil _).symm, List.prefix_rfl, Or.inl rfl, fun _ => ?_⟩
    · simp only [length_tag]
      omega
    · rw [UInt64.sub_self]
      rfl
  | clipped offered hlen =>
    refine ⟨?_, offered.take bound.bytes, marker, rfl, List.take_prefix _ _, Or.inr rfl,
      fun hlt => ?_⟩
    · simp only [List.length_append, length_tag, List.length_take]
      omega
    · have hdiff : stats.bytesShed + UInt64.ofNat (offered.length - bound.bytes) - stats.bytesShed =
          UInt64.ofNat (offered.length - bound.bytes) := by
        rw [UInt64.add_comm, UInt64.add_sub_cancel]
      have hfits : offered.length - bound.bytes < UInt64.size :=
        lt_of_le_of_lt (Nat.sub_le _ _) hlt
      simp only [hdiff, List.length_take, UInt64.toNat_ofNat_of_lt' hfits]
      omega

theorem inv_start (bound : Bound) (stats : ClipStats) : Inv bound stats (start bound stats) :=
  .within [] bound.bytes (Nat.zero_add _)

theorem kept_of_not_torn (bound : Bound) (stats : ClipStats) (calls : List Call)
    (h : Along step (start bound stats) calls
      (fun r call => ¬ r.writer.Torn call.buf call.answers)) :
    Kept bound stats (run step (start bound stats) calls) :=
  Inv.kept (run_invariant_of_along (fun _ _ => Inv.step) (inv_start bound stats) h)

def smallest : Bound := ⟨512, le_rfl⟩

def overlong : List UInt8 := List.replicate 513 0x78

theorem kept_of_not_torn_overlong : Kept smallest ⟨0, 0⟩
    (run step (start smallest ⟨0, 0⟩) [⟨overlong, [.ok 500, .interrupted, .ok 12, .ok 100]⟩]) :=
  kept_of_not_torn smallest ⟨0, 0⟩ _ (by decide +kernel)

/-- The budget is passed on twice where the marker fails and the call is made again. -/
theorem not_kept_torn : ¬ ∀ (bound : Bound) (stats : ClipStats) (calls : List Call),
    Kept bound stats (run step (start bound stats) calls) := by
  intro h
  have hbounded := (h smallest ⟨0, 0⟩
    [⟨overlong, [.ok 512, .error]⟩, ⟨overlong, [.ok 512, .ok 100]⟩]).bounded
  have htwice : (run step (start smallest ⟨0, 0⟩) [⟨overlong, [.ok 512, .error]⟩,
      ⟨overlong, [.ok 512, .ok 100]⟩]).writer.accepted.length = 1024 + marker.length := by
    decide +kernel
  rw [htwice] at hbounded
  exact absurd hbounded (by simp [smallest])

end Records

end BoundedWriter

end PangeaOperator
