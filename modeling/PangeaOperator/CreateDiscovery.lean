import PangeaOperator.Import
import PangeaOperator.Verdict

/-!
# The creates of a plan on both channels

Import discovery takes the creates of a shown plan where an entry's actions name a create, and
those of a typed plan where the change is one. A replacement names a create and a delete.
-/

namespace PangeaOperator

open Json

/-- An action of a typed plan as the analysis of a shown plan folds it, where a read is none. -/
def PlannedAction.changeType : PlannedAction → ChangeType
  | noOp => .noOp
  | read => .noOp
  | create => .create
  | update => .update
  | replace => .replace
  | delete => .delete

/-- An entry of a shown plan that has an address and a list of actions. -/
structure ShownChange where
  address : String
  kind : ResourceKindClass
  actions : List String
  deriving DecidableEq, Repr

namespace ShownChange

def changeType (c : ShownChange) : ChangeType := .fromActions c.actions

def actionText : Doc → Option String
  | .str action => some action
  | _ => none

/-- An entry as it is written; one with no address or no list of actions is skipped. -/
def read (change : Doc) : Option ShownChange :=
  match shownAddress change, (change.get? "change").bind (fun c => c.get? "actions") with
  | some address, some (.arr actions) =>
    some ⟨address, if textMember change "mode" = some "data" then .data else .managed,
      actions.filterMap actionText⟩
  | _, _ => none

end ShownChange

theorem ShownChange.kind_of_read {change : Doc} {c : ShownChange} (h : read change = some c) :
    c.kind = .managed ∨ c.kind = .data := by
  unfold read at h
  split at h
  · cases h
    by_cases hmode : textMember change "mode" = some "data" <;> simp [hmode]
  · cases h

/-- The entries of a shown plan, in order. -/
def shownPlan (parseValue : String → Option Doc) (planJson : String) : List ShownChange :=
  (shownChanges parseValue planJson).filterMap ShownChange.read

theorem kind_of_mem_shownPlan {parseValue : String → Option Doc} {planJson : String}
    {c : ShownChange} (hc : c ∈ shownPlan parseValue planJson) (hdata : c.kind ≠ .data) :
    c.kind = .managed := by
  obtain ⟨change, -, hread⟩ := List.mem_filterMap.mp hc
  exact (ShownChange.kind_of_read hread).resolve_right hdata

/-- The addresses whose change is a plain create. -/
def plainCreates (shown : List ShownChange) : List String :=
  (shown.filter (fun c => c.changeType = .create)).map ShownChange.address

/-- A typed plan lists the same resources, of the same kind and with the same change. -/
abbrev SamePlan (shown : List ShownChange) (changes : List DiscoverableChange) : Prop :=
  (changes.filter (fun c => c.kind = .managed ∨ c.kind = .data)).map
      (fun c => (c.address, c.kind, c.action.changeType)) =
    shown.map (fun c => (c.address, c.kind, c.changeType))

section Channels

theorem mem_filterMap_actionText (actions : List Doc) :
    "create" ∈ actions.filterMap ShownChange.actionText ↔ (.str "create" : Doc) ∈ actions := by
  rw [List.mem_filterMap]
  constructor
  · rintro ⟨v, hv, htext⟩
    cases v <;> simp_all [ShownChange.actionText]
  · intro h
    exact ⟨_, h, rfl⟩

/-- Reading an entry first loses none that the scan takes. -/
theorem shownCreate_address (change : Doc) :
    (if shownCreate change then shownAddress change else none) =
      ((ShownChange.read change).filter (fun c => "create" ∈ c.actions)).map
        ShownChange.address := by
  cases haddress : shownAddress change with
  | none => simp [ShownChange.read, haddress]
  | some address =>
    cases hactions : (change.get? "change").bind (fun c => c.get? "actions") with
    | none => simp [ShownChange.read, shownCreate, haddress, hactions]
    | some v =>
      cases v with
      | arr actions =>
        have hmem := mem_filterMap_actionText actions
        by_cases h : (.str "create" : Doc) ∈ actions
        · simp only [shownCreate, hactions, h, decide_true, if_true]
          simp only [ShownChange.read, haddress, hactions, Option.filter, hmem.mpr h, decide_true,
            if_true, Option.map_some]
        · simp only [shownCreate, hactions, h, decide_false, Bool.false_eq_true, if_false]
          simp only [ShownChange.read, haddress, hactions, Option.filter, mt hmem.mp h,
            decide_false, Bool.false_eq_true, if_false, Option.map_none]
      | _ => simp [ShownChange.read, shownCreate, haddress, hactions]

/-- The scan of a shown plan takes the entries that name a create. -/
theorem extractCreateAddresses_eq (parseValue : String → Option Doc) (planJson : String) :
    extractCreateAddressesFromPlan parseValue planJson =
      ((shownPlan parseValue planJson).filter (fun c => "create" ∈ c.actions)).map
        ShownChange.address := by
  rw [extractCreateAddressesFromPlan, shownPlan]
  induction shownChanges parseValue planJson with
  | nil => rfl
  | cons change changes ih =>
    have hhead := shownCreate_address change
    cases hcreate : shownCreate change <;> cases hread : ShownChange.read change with
    | none => simp_all [Option.filter]
    | some c => by_cases hc : "create" ∈ c.actions <;> simp_all [Option.filter]

theorem changeType_eq_create_iff (a : PlannedAction) : a.changeType = .create ↔ a = .create := by
  cases a <;> simp [PlannedAction.changeType]

/-- Discovery on a typed plan takes the managed resources whose change is a plain create. -/
theorem creates_eq_of_samePlan {shown : List ShownChange} {changes : List DiscoverableChange}
    (h : SamePlan shown changes) :
    (discoveryFromPlannedChanges changes).creates =
      (shown.filter (fun c => c.changeType = .create ∧ c.kind = .managed)).map
        ShownChange.address := by
  -- both sides as a reading of the rows the two plans share
  let creates (rows : List (String × ResourceKindClass × ChangeType)) : List String :=
    (rows.filter (fun r => r.2.2 = .create ∧ r.2.1 = .managed)).map Prod.fst
  have hshown : (shown.filter (fun c => c.changeType = .create ∧ c.kind = .managed)).map
      ShownChange.address = creates (shown.map (fun c => (c.address, c.kind, c.changeType))) := by
    simp [creates, List.filter_map, List.map_map, Function.comp_def]
  have htyped : (discoveryFromPlannedChanges changes).creates =
      creates ((changes.filter (fun c => c.kind = .managed ∨ c.kind = .data)).map
        (fun c => (c.address, c.kind, c.action.changeType))) := by
    simp only [creates, discoveryFromPlannedChanges, List.filter_map, List.map_map,
      List.filter_filter, Function.comp_def, changeType_eq_create_iff]
    congr 1
    refine List.filter_congr (fun c _ => ?_)
    by_cases hkind : c.kind = .managed <;> simp [hkind]
  rw [htyped, h, hshown]

end Channels

/-- A filter that is no wider gives the same list only if it takes the same entries. -/
theorem map_filter_eq_iff {α β : Type} (f : α → β) {p q : α → Bool} {l : List α}
    (hq : ∀ a ∈ l, q a = true → p a = true) :
    (l.filter p).map f = (l.filter q).map f ↔ ∀ a ∈ l, p a = true → q a = true := by
  constructor
  · intro h
    have hlength : l.countP p = l.countP q := by
      simpa [List.countP_eq_length_filter] using congrArg List.length h
    clear h
    induction l with
    | nil => simp
    | cons a l ih =>
      have hle : l.countP q ≤ l.countP p :=
        List.countP_mono_left (fun b hb => hq b (List.mem_cons_of_mem _ hb))
      have hhead := hq a List.mem_cons_self
      simp only [List.countP_cons] at hlength
      have hpq : p a = true → q a = true := by
        intro hp
        by_contra hne
        simp only [hp, hne, if_true, if_false] at hlength
        omega
      have htail : l.countP p = l.countP q := by
        by_cases hp : p a = true
        · simpa [hp, hpq hp] using hlength
        · simpa [hp, mt hhead hp] using hlength
      intro b hb
      rcases List.mem_cons.mp hb with rfl | hb
      · exact hpq
      · exact ih (fun c hc => hq c (List.mem_cons_of_mem _ hc)) htail b hb
  · intro h
    congr 1
    refine List.filter_congr (fun a ha => ?_)
    exact Bool.eq_iff_iff.mpr ⟨h a ha, hq a ha⟩

namespace ShownChange

/-- A replacement names a create and a delete. -/
abbrev NamesBoth (c : ShownChange) : Prop := "create" ∈ c.actions ∧ "delete" ∈ c.actions

theorem changeType_eq_create_iff (c : ShownChange) :
    c.changeType = .create ↔ "create" ∈ c.actions ∧ ¬c.NamesBoth := by
  by_cases hcreate : "create" ∈ c.actions <;> by_cases hdelete : "delete" ∈ c.actions <;>
    simp [changeType, ChangeType.fromActions, NamesBoth, hcreate, hdelete]
  split <;> simp

end ShownChange

/-- The two channels find the plain creates of a plan, and the same ones, just in case no entry
with an address names both a create and a delete and no data source is planned as a create. -/
theorem creates_agree_iff (parseValue : String → Option Doc) (planJson : String)
    {changes : List DiscoverableChange} (h : SamePlan (shownPlan parseValue planJson) changes) :
    (extractCreateAddressesFromPlan parseValue planJson =
        plainCreates (shownPlan parseValue planJson) ∧
      extractCreateAddressesFromPlan parseValue planJson =
        (discoveryFromPlannedChanges changes).creates) ↔
    ∀ c ∈ shownPlan parseValue planJson,
      ¬c.NamesBoth ∧ (c.kind = .data → "create" ∉ c.actions) := by
  have hcreate := ShownChange.changeType_eq_create_iff
  rw [creates_eq_of_samePlan h, extractCreateAddresses_eq, plainCreates,
    map_filter_eq_iff, map_filter_eq_iff]
  · simp only [decide_eq_true_eq, hcreate]
    constructor
    · rintro ⟨hplain, hmanaged⟩ c hc
      refine ⟨fun hboth => (hplain c hc hboth.1).2 hboth, fun hdata hnames => ?_⟩
      have hkind := (hmanaged c hc hnames).2
      rw [hdata] at hkind
      cases hkind
    · intro hall
      constructor
      · intro c hc hnames
        exact ⟨hnames, (hall c hc).1⟩
      · intro c hc hnames
        refine ⟨⟨hnames, (hall c hc).1⟩, ?_⟩
        exact kind_of_mem_shownPlan hc (fun hdata => (hall c hc).2 hdata hnames)
  · intro c _ hc
    simp only [decide_eq_true_eq, hcreate] at hc ⊢
    exact hc.1.1
  · intro c _ hc
    simp only [decide_eq_true_eq, hcreate] at hc ⊢
    exact hc.1

/-- A record that is created, and a data source that is read for it. -/
def createAndRead : Doc :=
  .obj [("resource_changes", .arr [
    .obj [("address", .str "dns.a"), ("mode", .str "managed"),
      ("change", .obj [("actions", .arr [.str "create"])])],
    .obj [("address", .str "data.zone.b"), ("mode", .str "data"),
      ("change", .obj [("actions", .arr [.str "read"])])]])]

theorem creates_agree_createAndRead :
    extractCreateAddressesFromPlan (fun _ => some createAndRead) "plan" =
      (discoveryFromPlannedChanges
        [⟨⟨"dns.a", .create⟩, none, .managed, none⟩,
          ⟨⟨"data.zone.b", .read⟩, none, .data, none⟩]).creates :=
  ((creates_agree_iff (fun _ => some createAndRead) "plan"
    (by decide +kernel)).mpr (by decide +kernel)).2

/-- A record that is replaced. -/
def replacedRecord : Doc :=
  .obj [("resource_changes", .arr [
    .obj [("address", .str "dns.a"), ("mode", .str "managed"),
      ("change", .obj [("actions", .arr [.str "delete", .str "create"])])]])]

/-- The scan of the shown plan offers it for import, and the typed plan does not. -/
theorem replacedRecord_offered :
    SamePlan (shownPlan (fun _ => some replacedRecord) "plan")
      [⟨⟨"dns.a", .replace⟩, none, .managed, none⟩] ∧
    extractCreateAddressesFromPlan (fun _ => some replacedRecord) "plan" = ["dns.a"] ∧
    plainCreates (shownPlan (fun _ => some replacedRecord) "plan") = [] ∧
    (discoveryFromPlannedChanges [⟨⟨"dns.a", .replace⟩, none, .managed, none⟩]).creates = [] := by
  decide +kernel

end PangeaOperator
