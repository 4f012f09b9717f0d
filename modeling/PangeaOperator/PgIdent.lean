import Mathlib
import PangeaOperator.Lib.Text
import PangeaOperator.StateBackend

/-!
# Identifiers of state schemas

`pangea-leaf`, `pg_ident.rs`. The state of a template is in a schema named after the catalog's
schema and the template. A name over 63 bytes is cut at a character and ends in ten hex digits of
its digest, so its last character is not that of a name that fits, which is an `s`.
-/

namespace PangeaOperator.PgIdent

/-- The name before it is bounded. -/
def fullSchema (schema template : String) : String := schema ++ "_" ++ template ++ "_states"

def tofuStateSchema (digest : String → String) (schema template : String) : String :=
  pgIdentBounded digest (fullSchema schema template)

def Fits (full : String) : Prop := full.utf8ByteSize ≤ 63

instance (full : String) : Decidable (Fits full) := inferInstanceAs (Decidable (_ ≤ _))

def hexDigits : List Char :=
  ['0', '1', '2', '3', '4', '5', '6', '7', '8', '9', 'a', 'b', 'c', 'd', 'e', 'f']

/-- `blake3` in hex: 64 lower case digits. -/
structure HexDigest (digest : String → String) : Prop where
  length : ∀ s, (digest s).toList.length = 64
  hex : ∀ s, ∀ c ∈ (digest s).toList, c ∈ hexDigits

def digestPrefix (digest : String → String) (full : String) : List Char :=
  (digest full).toList.take 10

section Bounded

variable {digest : String → String} {full : String}

theorem bounded_of_fits (h : Fits full) : pgIdentBounded digest full = full := if_pos h

theorem toList_bounded_of_long (h : ¬Fits full) : (pgIdentBounded digest full).toList =
    takeBytes full.toList 52 ++ '_' :: digestPrefix digest full := by
  have hcut : pgIdentBounded digest full = String.ofList (takeBytes full.toList 52) ++ "_" ++
      String.ofList (digestPrefix digest full) := if_neg h
  rw [hcut]
  simp

theorem length_digestPrefix (hd : HexDigest digest) : (digestPrefix digest full).length = 10 := by
  rw [digestPrefix, List.length_take, hd.length]
  rfl

theorem utf8Len_takeBytes_le (cs : List Char) (n : Nat) : String.utf8Len (takeBytes cs n) ≤ n := by
  induction cs generalizing n with
  | nil => exact Nat.zero_le n
  | cons c cs ih =>
    rw [takeBytes]
    split
    · have hrest := ih (n - c.utf8Size)
      rw [String.utf8Len_cons]
      omega
    · exact Nat.zero_le n

theorem mem_digestPrefix (hd : HexDigest digest) {c : Char} (h : c ∈ digestPrefix digest full) :
    c ∈ hexDigits := hd.hex full c (List.mem_of_mem_take h)

theorem utf8Size_of_hex {c : Char} (h : c ∈ hexDigits) : c.utf8Size = 1 := by
  have hall : hexDigits.all (·.utf8Size = 1) = true := by decide
  simpa using List.all_eq_true.mp hall c h

theorem utf8Len_of_hex {cs : List Char} (h : ∀ c ∈ cs, c ∈ hexDigits) :
    String.utf8Len cs = cs.length := by
  induction cs with
  | nil => rfl
  | cons c cs ih =>
    rw [List.forall_mem_cons] at h
    rw [String.utf8Len_cons, utf8Size_of_hex h.1, ih h.2, List.length_cons]

theorem utf8ByteSize_bounded_le (hd : HexDigest digest) :
    (pgIdentBounded digest full).utf8ByteSize ≤ 63 := by
  by_cases h : Fits full
  · rw [bounded_of_fits h]
    exact h
  · have hhex : String.utf8Len (digestPrefix digest full) = 10 := by
      rw [utf8Len_of_hex fun c => mem_digestPrefix hd, length_digestPrefix hd]
    have hcut := utf8Len_takeBytes_le full.toList 52
    rw [← String.ofList_toList (s := pgIdentBounded digest full), toList_bounded_of_long h,
      String.utf8ByteSize_ofList, String.utf8Len_append, String.utf8Len_cons, hhex]
    have hbar : '_'.utf8Size = 1 := rfl
    omega

/-- A long name ends in a hex digit. -/
theorem getLast?_bounded_of_long (hd : HexDigest digest) (h : ¬Fits full) :
    ∃ c ∈ hexDigits, (pgIdentBounded digest full).toList.getLast? = some c := by
  have hlen : (digestPrefix digest full).length = 10 := length_digestPrefix hd
  have hne : digestPrefix digest full ≠ [] := by
    intro hnil
    rw [hnil] at hlen
    cases hlen
  refine ⟨_, mem_digestPrefix hd (List.getLast_mem hne), ?_⟩
  rw [toList_bounded_of_long h, List.getLast?_append, List.getLast?_cons_of_ne_nil hne,
    List.getLast?_eq_some_getLast hne, Option.some_or]

theorem toList_fullSchema (schema template : String) : (fullSchema schema template).toList =
    schema.toList ++ '_' :: (template.toList ++ '_' :: "states".toList) := by
  simp [fullSchema, String.toList_append]

/-- A name that is not bounded ends in the letter of `_states`. -/
theorem getLast?_fullSchema (schema template : String) :
    (fullSchema schema template).toList.getLast? = some 's' := by
  rw [fullSchema, String.toList_append, List.getLast?_append]
  rfl

end Bounded

section Distinct

variable {digest : String → String}

/-- A template name without an underscore can be read back, whatever the schema is. -/
theorem fullSchema_inj {a b : String × String} (ha : '_' ∉ a.2.toList) (hb : '_' ∉ b.2.toList)
    (h : fullSchema a.1 a.2 = fullSchema b.1 b.2) : a = b := by
  have hlist := congrArg String.toList h
  rw [toList_fullSchema, toList_fullSchema, ← List.cons_append, ← List.append_assoc,
    ← List.cons_append, ← List.append_assoc] at hlist
  obtain ⟨hfront, -⟩ := append_cons_inj_right (by decide) (by decide) hlist
  obtain ⟨hschema, htemplate⟩ := append_cons_inj_right ha hb hfront
  exact Prod.ext (String.toList_inj.mp hschema) (String.toList_inj.mp htemplate)

/-- A digested name is no name that fits. -/
theorem tofuStateSchema_ne {a b : String × String} (hd : HexDigest digest)
    (ha : Fits (fullSchema a.1 a.2)) (hb : ¬Fits (fullSchema b.1 b.2)) :
    tofuStateSchema digest a.1 a.2 ≠ tofuStateSchema digest b.1 b.2 := by
  intro h
  obtain ⟨c, hc, hlast⟩ := getLast?_bounded_of_long hd hb
  rw [tofuStateSchema, tofuStateSchema, bounded_of_fits ha] at h
  rw [← h, getLast?_fullSchema, Option.some.injEq] at hlast
  exact absurd (hlast ▸ hc) (by decide)

/-- Two digested names have the same digest only. -/
theorem digestPrefix_eq {f g : String} (hd : HexDigest digest) (hf : ¬Fits f) (hg : ¬Fits g)
    (h : pgIdentBounded digest f = pgIdentBounded digest g) :
    digestPrefix digest f = digestPrefix digest g := by
  have hlist := congrArg String.toList h
  rw [toList_bounded_of_long hf, toList_bounded_of_long hg] at hlist
  have hlen : ('_' :: digestPrefix digest f).length = ('_' :: digestPrefix digest g).length := by
    rw [List.length_cons, List.length_cons, length_digestPrefix hd, length_digestPrefix hd]
  exact (List.cons.inj (List.append_inj_right' hlist hlen)).2

/-- The names too long for an identifier. -/
def longNames (pairs : Set (String × String)) : Set String :=
  {full | ∃ p ∈ pairs, fullSchema p.1 p.2 = full ∧ ¬Fits full}

/-- State schemas never collide: the templates of any catalogs, their names without underscores,
have identifiers of their own, where the ten digits tell the long names apart. An identifier fits,
is the plain name where that fits, and a digested one is no plain one. -/
theorem state_schemas_never_collide (hd : HexDigest digest) (pairs : Set (String × String))
    (hplain : ∀ p ∈ pairs, '_' ∉ p.2.toList)
    (hdigits : Set.InjOn (digestPrefix digest) (longNames pairs)) :
    Set.InjOn (fun p => tofuStateSchema digest p.1 p.2) pairs ∧
      (∀ schema template, Fits (tofuStateSchema digest schema template)) ∧
      (∀ schema template, Fits (fullSchema schema template) →
        tofuStateSchema digest schema template = fullSchema schema template) ∧
      ∀ a b : String × String, Fits (fullSchema a.1 a.2) → ¬Fits (fullSchema b.1 b.2) →
        tofuStateSchema digest a.1 a.2 ≠ tofuStateSchema digest b.1 b.2 := by
  refine ⟨fun a ha b hb h => ?_, fun schema template => utf8ByteSize_bounded_le hd,
    fun schema template => bounded_of_fits, fun a b => tofuStateSchema_ne hd⟩
  refine fullSchema_inj (hplain a ha) (hplain b hb) ?_
  by_cases hfa : Fits (fullSchema a.1 a.2)
  · by_cases hfb : Fits (fullSchema b.1 b.2)
    · have hsa : tofuStateSchema digest a.1 a.2 = fullSchema a.1 a.2 := bounded_of_fits hfa
      have hsb : tofuStateSchema digest b.1 b.2 = fullSchema b.1 b.2 := bounded_of_fits hfb
      exact hsa.symm.trans (h.trans hsb)
    · exact absurd h (tofuStateSchema_ne hd hfa hfb)
  · by_cases hfb : Fits (fullSchema b.1 b.2)
    · exact absurd h.symm (tofuStateSchema_ne hd hfb hfa)
    · exact hdigits ⟨a, ha, rfl, hfa⟩ ⟨b, hb, rfl, hfb⟩ (digestPrefix_eq hd hfa hfb h)

/-- The digests of two long names with one beginning; any other name has that of the empty one. -/
def twoDigests (full : String) : String :=
  if full = "pangea_pleme-io-github_pleme-io-github-repos-akeyless-custom-server-ui-rotate_states"
  then "f321af46c0324945721eed57e1658a78a2fa15b72fffcae4001b584e29dfb5ce"
  else if full =
    "pangea_pleme-io-github_pleme-io-github-repos-akeyless-custom-server-w-puppeteer_states"
  then "756c4b477412853493591ceb7e9bc7cc6e92dea4c9be3e237b0cd7b7887d87b6"
  else "af1349b9f5f9a1a6a0404dea36dcc9499bcb25c9adc112b7cc9a93cae41f3262"

theorem hexDigest_twoDigests : HexDigest twoDigests where
  length s := by
    unfold twoDigests
    split_ifs <;> rfl
  hex s := by
    have hall : (twoDigests s).toList.all (hexDigits.contains ·) = true := by
      unfold twoDigests
      split_ifs <;> decide +kernel
    simpa using hall

def rotatePair : String × String :=
  ("pangea_pleme-io-github", "pleme-io-github-repos-akeyless-custom-server-ui-rotate")

def puppeteerPair : String × String :=
  ("pangea_pleme-io-github", "pleme-io-github-repos-akeyless-custom-server-w-puppeteer")

theorem long_leaves_keep_their_states :
    Set.InjOn (fun p => tofuStateSchema twoDigests p.1 p.2)
      {("pangea_dns", "zone"), rotatePair, puppeteerPair} := by
  have hplain : ∀ p ∈ ({("pangea_dns", "zone"), rotatePair, puppeteerPair} :
      Set (String × String)), '_' ∉ p.2.toList := by
    rintro p (rfl | rfl | rfl) <;> decide +kernel
  have hdigits : Set.InjOn (digestPrefix twoDigests)
      (longNames {("pangea_dns", "zone"), rotatePair, puppeteerPair}) := by
    have hshort : Fits (fullSchema "pangea_dns" "zone") := by decide +kernel
    have hdigests : digestPrefix twoDigests (fullSchema rotatePair.1 rotatePair.2) ≠
        digestPrefix twoDigests (fullSchema puppeteerPair.1 puppeteerPair.2) := by
      decide +kernel
    rintro _ ⟨p, rfl | rfl | rfl, rfl, hp⟩ _ ⟨q, rfl | rfl | rfl, rfl, hq⟩ h
    · exact absurd hshort hp
    · exact absurd hshort hp
    · exact absurd hshort hp
    · exact absurd hshort hq
    · rfl
    · exact absurd h hdigests
    · exact absurd hshort hq
    · exact absurd h.symm hdigests
    · rfl
  exact (state_schemas_never_collide hexDigest_twoDigests _ hplain hdigits).1

end Distinct

end PangeaOperator.PgIdent
