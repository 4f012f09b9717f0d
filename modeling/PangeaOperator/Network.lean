import PangeaOperator.Lib.Contested
import PangeaOperator.Lib.LastWins
import PangeaOperator.Lib.Yields
import Mathlib.Data.Prod.Lex
import Mathlib.Data.String.Basic

/-!
# Services and devices of the network

`network.rs`: a service is resolved over the tiers that speak of it, from the fleet up to its own
entry, and a device from its entry alone. What resolves is refused again where its names, or its
MAC within a site, are claimed more than once.
-/

namespace PangeaOperator

inductive Posture where
  | host
  | lan
  | sites
  | tailnetTag
  | tailnet
  | shared
  | publicFunnel
  | publicDomain
  deriving DecidableEq, Repr

namespace Posture

def all : List Posture :=
  [host, lan, sites, tailnetTag, tailnet, shared, publicFunnel, publicDomain]

def asStr : Posture → String
  | host => "host"
  | lan => "lan"
  | sites => "sites"
  | tailnetTag => "tailnet-tag"
  | tailnet => "tailnet"
  | shared => "shared"
  | publicFunnel => "public-funnel"
  | publicDomain => "public-domain"

def parse (raw : String) : Option Posture := all.find? (fun p => p.asStr = raw)

end Posture

structure ServicePatch where
  posture : Option String := none
  port : Option UInt16 := none
  upstream : Option String := none
  names : Option (List String) := none

/-- What is set above replaces what is set below. -/
def ServicePatch.overlay (below above : ServicePatch) : ServicePatch where
  posture := above.posture.or below.posture
  port := above.port.or below.port
  upstream := above.upstream.or below.upstream
  names := above.names.or below.names

structure NetworkTier where
  defaults : ServicePatch := {}
  services : SortedMap String ServicePatch := .empty

structure NodeTier extends NetworkTier where
  site : Option String := none

structure ServiceEntry extends ServicePatch where
  node : Option String := none
  site : Option String := none

structure DeviceEntry where
  kind : Option String := none
  mac : Option String := none
  address : Option String := none
  posture : Option String := none

structure NetworkConfig where
  fleet : NetworkTier := {}
  sites : SortedMap String NetworkTier := .empty
  nodes : SortedMap String NodeTier := .empty
  services : SortedMap String ServiceEntry := .empty
  devices : SortedMap String (SortedMap String DeviceEntry) := .empty

structure ResolvedService where
  name : String
  node : String
  site : Option String
  posture : Posture
  port : UInt16
  upstream : Option String
  names : List String
  deriving DecidableEq

/-- A device with an address of some type. -/
structure ResolvedDevice (ip : Type) where
  site : String
  name : String
  kind : String
  mac : String
  address : Option ip
  posture : Posture

abbrev Refusal := String

/-- The key of a device: its site and its name, in this order. -/
abbrev DeviceKey := String ×ₗ String

structure NetworkResolution (ip : Type) where
  services : SortedMap String (Except Refusal ResolvedService)
  devices : SortedMap DeviceKey (Except Refusal (ResolvedDevice ip))

/-- `ok_or_else` with a refusal. -/
def required {α : Type} (refusal : Refusal) : Option α → Except Refusal α
  | none => .error refusal
  | some a => .ok a

def parsePosture : Option String → Except Refusal Posture
  | none => .error "no posture at any tier"
  | some raw =>
    match Posture.parse raw with
    | none => .error ("unknown posture '" ++ raw ++
        "' (host|lan|sites|tailnet-tag|tailnet|shared|public-funnel|public-domain)")
    | some posture => .ok posture

def resolvePort : Option UInt16 → Except Refusal UInt16
  | some p => if 0 < p then .ok p else .error "port 0"
  | none => .error "no port at any tier"

def isHexDigit (c : Char) : Bool :=
  c.isDigit || ('a' ≤ c && c ≤ 'f') || ('A' ≤ c && c ≤ 'F')

/-- Six octets of two digits, which have one byte each, in lower case between colons. -/
def normalizeMac (raw : String) : Option String :=
  let octets := raw.toList.splitOnP (fun c => c == ':' || c == '-')
  if octets.length = 6 ∧ ∀ o ∈ octets, o.length = 2 ∧ ∀ c ∈ o, isHexDigit c then
    some (String.ofList (([':'].intercalate octets).map Char.toLower))
  else none

namespace NetworkConfig

variable (c : NetworkConfig)

def nodeSite (node : String) : Option String := (c.nodes.get? node).bind NodeTier.site

/-- A tier that may not be there, and what it says of a service. -/
def overlayTier (name : String) (below : ServicePatch) : Option NetworkTier → ServicePatch
  | none => below
  | some tier =>
    let below := below.overlay tier.defaults
    match tier.services.get? name with
    | none => below
    | some p => below.overlay p

def effectivePatch (name : String) (entry : ServiceEntry) (site : Option String) : ServicePatch :=
  let fleet := overlayTier name {} (some c.fleet)
  let ofSite := overlayTier name fleet (site.bind c.sites.get?)
  let ofNode := overlayTier name ofSite ((entry.node.bind c.nodes.get?).map NodeTier.toNetworkTier)
  ofNode.overlay entry.toServicePatch

/-- The site of a service, its own or that of its node. -/
def resolveSite (node : String) (own : Option String) : Except Refusal (Option String) :=
  match own, c.nodeSite node with
  | some own, some ofNode =>
    if own ≠ ofNode then
      .error ("site '" ++ own ++ "' disagrees with node '" ++ node ++ "' site '" ++ ofNode ++ "'")
    else .ok (some own)
  | own, ofNode => .ok (own.or ofNode)

def resolveService (name : String) (entry : ServiceEntry) : Except Refusal ResolvedService := do
  let node ← required "no node" entry.node
  let site ← c.resolveSite node entry.site
  let patch := c.effectivePatch name entry site
  let posture ← parsePosture patch.posture
  let port ← resolvePort patch.port
  .ok ⟨name, node, site, posture, port, patch.upstream, patch.names.getD []⟩

section Devices

variable {ip : Type} (parseIp : String → Option ip)

def resolveAddress : Option String → Except Refusal (Option ip)
  | none => .ok none
  | some raw => (required ("malformed address '" ++ raw ++ "'") (parseIp raw)).map some

def resolveDevice (site name : String) (entry : DeviceEntry) :
    Except Refusal (ResolvedDevice ip) := do
  let kind ← required "no kind" entry.kind
  let rawMac ← required "no mac" entry.mac
  let mac ← required ("malformed mac '" ++ rawMac ++ "'") (normalizeMac rawMac)
  let address ← resolveAddress parseIp entry.address
  let posture ← parsePosture entry.posture
  .ok ⟨site, name, kind, mac, address, posture⟩

def ownServices : SortedMap String (Except Refusal ResolvedService) :=
  .ofList (c.services.entries.map fun e => (e.1, c.resolveService e.1 e.2))

def ownDevices : SortedMap DeviceKey (Except Refusal (ResolvedDevice ip)) :=
  .ofList (c.devices.entries.flatMap fun site => site.2.entries.map fun e =>
    (toLex (site.1, e.1), resolveDevice parseIp site.1 e.1 e.2))

def nameRefusal (claimed : String) (owners : List String) : Refusal :=
  "name '" ++ claimed ++ "' claimed by " ++ String.intercalate "," owners

def macRefusal (claimed : String × String) (owners : List String) : Refusal :=
  "mac " ++ claimed.2 ++ " shared with " ++ String.intercalate "," owners

/-- What resolves by itself, without what is claimed more than once. -/
def resolve : NetworkResolution ip where
  services := Contested.settle ResolvedService.names ResolvedService.name (fun _ owner => owner)
    nameRefusal c.ownServices
  devices := Contested.settle (fun d => [toLex (d.site, d.mac)]) ResolvedDevice.name
    (fun claimed owner => toLex ((ofLex claimed).1, owner))
    (fun claimed owners => macRefusal (ofLex claimed) owners) (c.ownDevices parseIp)

end Devices

section Parts

theorem required_eq_ok_iff {α : Type} {refusal : Refusal} {o : Option α} {a : α} :
    required refusal o = .ok a ↔ o = some a := by
  cases o with
  | none => simp [required]
  | some b => simp [required]

theorem parsePosture_eq_ok_iff {raw : Option String} {posture : Posture} :
    parsePosture raw = .ok posture ↔ raw.bind Posture.parse = some posture := by
  cases raw with
  | none => simp [parsePosture]
  | some raw =>
    rw [parsePosture, Option.bind_some]
    cases Posture.parse raw with
    | none => simp
    | some p => simp

theorem resolvePort_eq_ok_iff {o : Option UInt16} {port : UInt16} :
    resolvePort o = .ok port ↔ o = some port ∧ 0 < port := by
  cases o with
  | none => simp [resolvePort]
  | some p =>
    rw [resolvePort]
    by_cases hp : 0 < p
    · rw [if_pos hp]
      constructor
      · intro h
        cases h
        exact ⟨rfl, hp⟩
      · rintro ⟨h, -⟩
        cases h
        rfl
    · rw [if_neg hp]
      refine iff_of_false (by simp) ?_
      rintro ⟨h, hport⟩
      cases h
      exact hp hport

variable {c : NetworkConfig}

theorem resolveSite_eq_ok_iff {node : String} {own site : Option String} :
    c.resolveSite node own = .ok site ↔
      (∀ s t, own = some s → c.nodeSite node = some t → s = t) ∧
        site = own.or (c.nodeSite node) := by
  cases hof : c.nodeSite node with
  | none => cases own <;> simp [resolveSite, hof, eq_comm]
  | some t =>
    cases own with
    | none => simp [resolveSite, hof, eq_comm]
    | some s =>
      by_cases hst : s = t
      · simp [resolveSite, hof, hst, eq_comm]
      · simp [resolveSite, hof, hst]

variable {ip : Type} {parseIp : String → Option ip}

theorem resolveAddress_eq_ok_iff {raw : Option String} {address : Option ip} :
    resolveAddress parseIp raw = .ok address ↔ raw.map parseIp = address.map some := by
  cases raw with
  | none => cases address <;> simp [resolveAddress]
  | some raw =>
    rw [resolveAddress, Option.map_some]
    cases parseIp raw with
    | none => cases address <;> simp [required, Except.map]
    | some a => cases address <;> simp [required, Except.map]

end Parts

section Tiers

/-- What a tier says of a service: its defaults, and then the service by name. -/
def tierPatches (name : String) : Option NetworkTier → List ServicePatch
  | none => []
  | some tier => tier.defaults :: (tier.services.get? name).toList

variable (c : NetworkConfig)

/-- All that is said of a service, from the fleet up to its own entry. -/
def tiers (name : String) (entry : ServiceEntry) (site : Option String) : List ServicePatch :=
  tierPatches name (some c.fleet) ++ tierPatches name (site.bind c.sites.get?) ++
    tierPatches name ((entry.node.bind c.nodes.get?).map NodeTier.toNetworkTier) ++
    [entry.toServicePatch]

/-- What the highest tier says that speaks to a field. -/
def topmost {β : Type} (field : ServicePatch → Option β) (patches : List ServicePatch) : Option β :=
  (patches.filterMap field).getLast?

theorem overlayTier_eq (name : String) (below : ServicePatch) (tier : Option NetworkTier) :
    overlayTier name below tier = (tierPatches name tier).foldl ServicePatch.overlay below := by
  cases tier with
  | none => rfl
  | some tier =>
    rw [overlayTier, tierPatches]
    cases tier.services.get? name <;> rfl

theorem effectivePatch_eq (name : String) (entry : ServiceEntry) (site : Option String) :
    c.effectivePatch name entry site = (c.tiers name entry site).foldl ServicePatch.overlay {} := by
  rw [effectivePatch, tiers, List.foldl_append, List.foldl_append, List.foldl_append,
    ← overlayTier_eq, ← overlayTier_eq, ← overlayTier_eq]
  rfl

/-- Each field is taken from the highest tier that sets it. -/
theorem field_effectivePatch {β : Type} {field : ServicePatch → Option β}
    (hfield : ∀ below above, field (below.overlay above) = (field above).or (field below))
    (hunset : field {} = none) (name : String) (entry : ServiceEntry) (site : Option String) :
    field (c.effectivePatch name entry site) = topmost field (c.tiers name entry site) := by
  have hlast := foldl_last field hfield (c.tiers name entry site) {}
  rw [effectivePatch_eq, hlast, hunset, Option.or_none, topmost]

end Tiers

section Own

/-- The entry of a service is in order, and this is what its tiers make of it. -/
structure ServiceResolves (c : NetworkConfig) (key : String) (entry : ServiceEntry)
    (svc : ResolvedService) : Prop where
  name : svc.name = key
  node : entry.node = some svc.node
  consistent : ∀ own ofNode, entry.site = some own → c.nodeSite svc.node = some ofNode →
    own = ofNode
  site : svc.site = entry.site.or (c.nodeSite svc.node)
  posture : (topmost ServicePatch.posture (c.tiers key entry svc.site)).bind Posture.parse =
    some svc.posture
  port : topmost ServicePatch.port (c.tiers key entry svc.site) = some svc.port
  positive : 0 < svc.port
  upstream : svc.upstream = topmost ServicePatch.upstream (c.tiers key entry svc.site)
  names : svc.names = (topmost ServicePatch.names (c.tiers key entry svc.site)).getD []

/-- The entry of a device is in order. -/
structure DeviceResolves {ip : Type} (parseIp : String → Option ip) (site name : String)
    (entry : DeviceEntry) (d : ResolvedDevice ip) : Prop where
  site : d.site = site
  name : d.name = name
  kind : entry.kind = some d.kind
  mac : entry.mac.bind normalizeMac = some d.mac
  address : entry.address.map parseIp = d.address.map some
  posture : entry.posture.bind Posture.parse = some d.posture

variable {c : NetworkConfig}

theorem resolveService_eq_ok_iff {name : String} {entry : ServiceEntry} {svc : ResolvedService} :
    c.resolveService name entry = .ok svc ↔ c.ServiceResolves name entry svc := by
  have hposture (site : Option String) : (c.effectivePatch name entry site).posture =
      topmost ServicePatch.posture (c.tiers name entry site) :=
    c.field_effectivePatch (fun _ _ => rfl) rfl name entry site
  have hport (site : Option String) : (c.effectivePatch name entry site).port =
      topmost ServicePatch.port (c.tiers name entry site) :=
    c.field_effectivePatch (fun _ _ => rfl) rfl name entry site
  have hupstream (site : Option String) : (c.effectivePatch name entry site).upstream =
      topmost ServicePatch.upstream (c.tiers name entry site) :=
    c.field_effectivePatch (fun _ _ => rfl) rfl name entry site
  have hnames (site : Option String) : (c.effectivePatch name entry site).names =
      topmost ServicePatch.names (c.tiers name entry site) :=
    c.field_effectivePatch (fun _ _ => rfl) rfl name entry site
  simp only [resolveService, bind_eq_ok_iff, required_eq_ok_iff, resolveSite_eq_ok_iff,
    parsePosture_eq_ok_iff, resolvePort_eq_ok_iff, hposture, hport, hupstream, hnames]
  constructor
  · rintro ⟨node, hnode, site, ⟨hconsistent, hsite⟩, posture, hposture, port, ⟨hport, hpositive⟩, h⟩
    cases h
    exact ⟨rfl, hnode, hconsistent, hsite, hposture, hport, hpositive, rfl, rfl⟩
  · intro h
    refine ⟨svc.node, h.node, svc.site, ⟨h.consistent, h.site⟩, svc.posture, h.posture, svc.port,
      ⟨h.port, h.positive⟩, ?_⟩
    rw [← h.upstream, ← h.names, ← h.name]

variable {ip : Type} {parseIp : String → Option ip}

theorem resolveDevice_eq_ok_iff {site name : String} {entry : DeviceEntry}
    {d : ResolvedDevice ip} :
    resolveDevice parseIp site name entry = .ok d ↔ DeviceResolves parseIp site name entry d := by
  simp only [resolveDevice, bind_eq_ok_iff, required_eq_ok_iff, resolveAddress_eq_ok_iff,
    parsePosture_eq_ok_iff]
  constructor
  · rintro ⟨kind, hkind, raw, hraw, mac, hmac, address, haddress, posture, hposture, h⟩
    cases h
    exact ⟨rfl, rfl, hkind, by rw [hraw, Option.bind_some, hmac], haddress, hposture⟩
  · intro h
    obtain ⟨raw, hraw, hmac⟩ := Option.bind_eq_some_iff.mp h.mac
    refine ⟨d.kind, h.kind, raw, hraw, d.mac, hmac, d.address, h.address, d.posture, h.posture, ?_⟩
    rw [← h.site, ← h.name]

end Own

section Resolve

variable (c : NetworkConfig)

theorem get?_ownServices (name : String) : c.ownServices.get? name =
    (c.services.get? name).map (c.resolveService name) :=
  SortedMap.get?_ofList_map c.services c.resolveService name

theorem ownServices_ok_iff {name : String} {svc : ResolvedService} :
    c.ownServices.get? name = some (.ok svc) ↔
      ∃ entry, c.services.get? name = some entry ∧ c.ServiceResolves name entry svc := by
  rw [get?_ownServices, Option.map_eq_some_iff]
  simp only [resolveService_eq_ok_iff]

/-- The entry of a device at a site. -/
def deviceEntry (site name : String) : Option DeviceEntry :=
  (c.devices.get? site).bind (fun entries => entries.get? name)

variable {ip : Type} (parseIp : String → Option ip)

theorem nodup_deviceKeys : ((c.devices.entries.flatMap fun site => site.2.entries.map fun e =>
    ((toLex (site.1, e.1) : DeviceKey), resolveDevice parseIp site.1 e.1 e.2)).map
      Prod.fst).Nodup := by
  have hkeys (site : String × SortedMap String DeviceEntry) :
      ((site.2.entries.map fun e => ((toLex (site.1, e.1) : DeviceKey),
        resolveDevice parseIp site.1 e.1 e.2)).map Prod.fst) =
      site.2.keys.map (fun name => (toLex (site.1, name) : DeviceKey)) := by
    rw [SortedMap.keys, List.map_map, List.map_map]
    rfl
  rw [List.map_flatMap]
  simp only [hkeys]
  rw [List.nodup_flatMap]
  constructor
  · intro site _
    exact site.2.keys_nodup.map fun x y h => by simpa using h
  · refine (List.pairwise_map.mp c.devices.keys_nodup).imp fun {s t} hne k hs ht => ?_
    obtain ⟨name, -, rfl⟩ := List.mem_map.mp hs
    obtain ⟨name', -, heq⟩ := List.mem_map.mp ht
    exact hne (Prod.mk.inj (toLex.injective heq)).1.symm

theorem get?_ownDevices (site name : String) :
    (c.ownDevices parseIp).get? (toLex (site, name)) =
      (c.deviceEntry site name).map (resolveDevice parseIp site name) := by
  refine Option.ext fun result => ?_
  rw [ownDevices, SortedMap.get?_ofList_iff (c.nodup_deviceKeys parseIp), List.mem_flatMap,
    Option.map_eq_some_iff, deviceEntry]
  constructor
  · rintro ⟨⟨s, entries⟩, hs, he⟩
    obtain ⟨⟨n, entry⟩, hn, heq⟩ := List.mem_map.mp he
    obtain ⟨hkey, hresult⟩ := Prod.mk.inj heq
    obtain ⟨rfl, rfl⟩ := Prod.mk.inj (toLex.injective hkey)
    refine ⟨entry, Option.bind_eq_some_iff.mpr ⟨entries, SortedMap.get?_of_mem hs, ?_⟩, hresult⟩
    exact SortedMap.get?_of_mem hn
  · rintro ⟨entry, hentry, rfl⟩
    obtain ⟨entries, hs, hn⟩ := Option.bind_eq_some_iff.mp hentry
    refine ⟨(site, entries), SortedMap.get?_eq_some_iff.mp hs, ?_⟩
    exact List.mem_map.mpr ⟨(name, entry), SortedMap.get?_eq_some_iff.mp hn, rfl⟩

theorem ownDevices_ok_iff {site name : String} {d : ResolvedDevice ip} :
    (c.ownDevices parseIp).get? (toLex (site, name)) = some (.ok d) ↔
      ∃ entry, c.deviceEntry site name = some entry ∧ DeviceResolves parseIp site name entry d := by
  rw [get?_ownDevices, Option.map_eq_some_iff]
  simp only [resolveDevice_eq_ok_iff]

theorem keyed_ownServices : Contested.Keyed ResolvedService.names ResolvedService.name
    (fun _ owner => owner) c.ownServices := by
  intro name svc h n _
  obtain ⟨entry, -, hresolves⟩ := c.ownServices_ok_iff.mp h
  exact hresolves.name

theorem keyed_ownDevices : Contested.Keyed
    (fun d : ResolvedDevice ip => [(toLex (d.site, d.mac) : DeviceKey)]) ResolvedDevice.name
    (fun claimed owner => toLex ((ofLex claimed).1, owner)) (c.ownDevices parseIp) := by
  intro k d h n hn
  obtain ⟨site, name⟩ := k
  obtain ⟨entry, -, hresolves⟩ := (c.ownDevices_ok_iff parseIp).mp h
  rw [List.mem_singleton.mp hn]
  change toLex (d.site, d.name) = toLex (site, name)
  rw [hresolves.site, hresolves.name]

/-- A service resolves whose names no other one has that resolves. -/
def Unshared (c : NetworkConfig) (name : String) (svc : ResolvedService) : Prop :=
  ∀ other entry svc', other ≠ name → c.services.get? other = some entry →
    c.ServiceResolves other entry svc' → svc.names.Disjoint svc'.names

/-- No other device of the site that resolves has the MAC. -/
def UnsharedMac (c : NetworkConfig) {ip : Type} (parseIp : String → Option ip)
    (site name : String) (d : ResolvedDevice ip) : Prop :=
  ∀ other entry d', other ≠ name → c.deviceEntry site other = some entry →
    DeviceResolves parseIp site other entry d' → d.mac ≠ d'.mac

theorem resolve_service_iff {name : String} {svc : ResolvedService} :
    (c.resolve parseIp).services.get? name = some (.ok svc) ↔
      (∃ entry, c.services.get? name = some entry ∧ c.ServiceResolves name entry svc) ∧
        svc.names.Nodup ∧ c.Unshared name svc := by
  rw [resolve, Contested.settle_ok_iff c.keyed_ownServices, ownServices_ok_iff]
  refine and_congr_right fun _ => and_congr_right fun _ => ?_
  simp only [ownServices_ok_iff]
  constructor
  · intro h other entry svc' hne hentry hresolves n hn hn'
    exact h other svc' ⟨entry, hentry, hresolves⟩ hne n hn hn'
  · rintro h other svc' ⟨entry, hentry, hresolves⟩ hne n hn hn'
    exact h other entry svc' hne hentry hresolves hn hn'

theorem resolve_device_iff {site name : String} {d : ResolvedDevice ip} :
    (c.resolve parseIp).devices.get? (toLex (site, name)) = some (.ok d) ↔
      (∃ entry, c.deviceEntry site name = some entry ∧ DeviceResolves parseIp site name entry d) ∧
        c.UnsharedMac parseIp site name d := by
  rw [resolve, Contested.settle_ok_iff (c.keyed_ownDevices parseIp), ownDevices_ok_iff]
  refine and_congr_right fun hown => ?_
  obtain ⟨entry, -, hd⟩ := hown
  constructor
  · rintro ⟨-, h⟩ other entry' d' hne hentry hresolves hmac
    refine h (toLex (site, other)) d'
      ((c.ownDevices_ok_iff parseIp).mpr ⟨entry', hentry, hresolves⟩) ?_ (toLex (d.site, d.mac))
      List.mem_cons_self ?_
    · exact fun heq => hne (Prod.mk.inj (toLex.injective heq)).2
    · rw [hd.site, ← hresolves.site, hmac]
      exact List.mem_cons_self
  · intro h
    refine ⟨List.nodup_singleton _, fun j d' hj hne n hn hn' => ?_⟩
    obtain ⟨s, other⟩ := j
    obtain ⟨entry', hentry, hresolves⟩ := (c.ownDevices_ok_iff parseIp).mp hj
    have hkey := (List.mem_singleton.mp hn).symm.trans (List.mem_singleton.mp hn')
    obtain ⟨hsite, hmac⟩ := Prod.mk.inj (toLex.injective hkey)
    have hs : s = site := hresolves.site.symm.trans (hsite.symm.trans hd.site)
    subst hs
    exact h other entry' d' (fun heq => hne (heq ▸ rfl)) hentry hresolves hmac

end Resolve

/-- Each entry has one result, and what is refused are the entries that do not resolve, and those
that share a name, or a MAC within a site, with another one that does. -/
structure RefusesExactly (c : NetworkConfig) {ip : Type} (parseIp : String → Option ip)
    (r : NetworkResolution ip) : Prop where
  services : ∀ name, (r.services.get? name).isSome ↔ (c.services.get? name).isSome
  devices : ∀ site name, (r.devices.get? (toLex (site, name))).isSome ↔
    (c.deviceEntry site name).isSome
  service : ∀ name svc, r.services.get? name = some (.ok svc) ↔
    (∃ entry, c.services.get? name = some entry ∧ c.ServiceResolves name entry svc) ∧
      c.Unshared name svc
  device : ∀ site name d, r.devices.get? (toLex (site, name)) = some (.ok d) ↔
    (∃ entry, c.deviceEntry site name = some entry ∧ DeviceResolves parseIp site name entry d) ∧
      c.UnsharedMac parseIp site name d
  names : ∀ name svc other svc', name ≠ other → r.services.get? name = some (.ok svc) →
    r.services.get? other = some (.ok svc') → svc.names.Disjoint svc'.names
  macs : ∀ site name d other d', name ≠ other →
    r.devices.get? (toLex (site, name)) = some (.ok d) →
      r.devices.get? (toLex (site, other)) = some (.ok d') → d.mac ≠ d'.mac

/-- The refusals are exact just in case every service that resolves and names itself twice shares a
name with another one besides. -/
theorem resolve_refusesExactly_iff (c : NetworkConfig) {ip : Type} (parseIp : String → Option ip) :
    c.RefusesExactly parseIp (c.resolve parseIp) ↔
      ∀ name entry svc, c.services.get? name = some entry → c.ServiceResolves name entry svc →
        svc.names.Nodup ∨ ¬ c.Unshared name svc := by
  constructor
  · intro h name entry svc hentry hresolves
    by_cases hunshared : c.Unshared name svc
    · have hok := (h.service name svc).mpr ⟨⟨entry, hentry, hresolves⟩, hunshared⟩
      exact .inl ((c.resolve_service_iff parseIp).mp hok).2.1
    · exact .inr hunshared
  · intro h
    refine ⟨fun name => ?_, fun site name => ?_, fun name svc => ?_, fun site name d =>
      c.resolve_device_iff parseIp, fun name svc other svc' hne hok hok' => ?_,
      fun site name d other d' hne hok hok' => ?_⟩
    · rw [resolve, Contested.isSome_settle c.keyed_ownServices, get?_ownServices,
        Option.isSome_map]
    · rw [resolve, Contested.isSome_settle (c.keyed_ownDevices parseIp), get?_ownDevices,
        Option.isSome_map]
    · rw [resolve_service_iff]
      constructor
      · rintro ⟨hown, -, hunshared⟩
        exact ⟨hown, hunshared⟩
      · rintro ⟨⟨entry, hentry, hresolves⟩, hunshared⟩
        have hnodup := (h name entry svc hentry hresolves).resolve_right (not_not.mpr hunshared)
        exact ⟨⟨entry, hentry, hresolves⟩, hnodup, hunshared⟩
    · obtain ⟨-, -, hunshared⟩ := (c.resolve_service_iff parseIp).mp hok
      obtain ⟨⟨entry, hentry, hresolves⟩, -, -⟩ := (c.resolve_service_iff parseIp).mp hok'
      exact hunshared other entry svc' hne.symm hentry hresolves
    · obtain ⟨-, hunshared⟩ := (c.resolve_device_iff parseIp).mp hok
      obtain ⟨⟨entry, hentry, hresolves⟩, -⟩ := (c.resolve_device_iff parseIp).mp hok'
      exact hunshared other entry d' hne.symm hentry hresolves

/-- A service that has the same name twice. -/
def twiceEntry : ServiceEntry where
  node := some "rio"
  posture := some "tailnet"
  port := some 80
  names := some ["x", "x"]

def twiceService : ResolvedService := ⟨"web", "rio", none, .tailnet, 80, none, ["x", "x"]⟩

def namedTwice : NetworkConfig where
  services := .ofList [("web", twiceEntry)]

theorem namedTwice_refused : ¬ namedTwice.RefusesExactly (fun _ => (none : Option Unit))
    (namedTwice.resolve fun _ => none) := by
  intro h
  have hresolves : namedTwice.ServiceResolves "web" twiceEntry twiceService :=
    resolveService_eq_ok_iff.mp (by rfl)
  have hunshared : namedTwice.Unshared "web" twiceService := by
    intro other entry svc' hne hother
    have hkey : other ∈ namedTwice.services.keys := SortedMap.mem_keys_iff.mpr ⟨entry, hother⟩
    exact absurd (List.mem_singleton.mp hkey) hne
  have hok := (h.service "web" twiceService).mpr ⟨⟨twiceEntry, rfl, hresolves⟩, hunshared⟩
  have hnodup := ((namedTwice.resolve_service_iff _).mp hok).2.1
  revert hnodup
  decide

end NetworkConfig

end PangeaOperator
