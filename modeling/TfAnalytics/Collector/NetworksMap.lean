import TfAnalytics.Lib.OrderedMap
import Mathlib.Algebra.Order.Ring.Int
import Mathlib.Data.String.Basic
import Mathlib.Data.Multiset.Filter
import Mathlib.Algebra.Order.Group.Multiset

/-!
# Collector — the networks of the configured sites

`StructuredSyslogConfig` (structured_syslog_config.cc) keeps the hostname records
of the configuration and, under the key tenant::vpn, the networks of their LAN
segments, each tagged with the location of its record. `HostnameRecordsHandler`
receives every add, update and delete of a record; a delete carries the last
content of the record.

The networks are removed by location (`RefreshNetworksMap`), not by record.

* `netsAt_lanSegments`: what adding the LAN segments of a record does to the
  networks under one key;
* `mirrors_add_iff` / `mirrors_delete_iff`: when one message keeps the map in
  step with the records;
* `mirrors_along_iff`: the same for whole sequences.
-/

namespace TfAnalytics.Collector

open TfAnalytics.Lib

-- ---------------------------------------------------------------------------
-- Addresses
-- ---------------------------------------------------------------------------

/-- `getline` until the end: a delimiter at the end starts no further piece. -/
def split_into_vector (str : String) (delimiter : Char) : List String :=
  let pieces := str.toList.splitOn delimiter
  (if pieces.getLast? = some [] then pieces.dropLast else pieces).map String.ofList

/-- `isspace` of the C locale. -/
def isspace (c : Char) : Bool := c.isWhitespace || c = '\x0b' || c = '\x0c'

/-- `%d` of `sscanf`: blanks, a sign and at least one digit. The number is read as a `long`,
which saturates; whoever takes it cuts it to an `int`. -/
def scanInt (s : List Char) : Option (Int × List Char) :=
  let s := s.dropWhile isspace
  let (negative, s) :=
    match s with
    | '-' :: rest => (true, rest)
    | '+' :: rest => (false, rest)
    | _ => (false, s)
  let digits := s.takeWhile Char.isDigit
  if digits.isEmpty then none
  else
    let n : Int := Nat.ofDigitChars 10 digits 0
    some (if negative then max (-n) (-2 ^ 63) else min n (2 ^ 63 - 1), s.dropWhile Char.isDigit)

/-- A `.` and the next `%d`. -/
def scanDotInt : List Char → Option (Int × List Char)
  | '.' :: rest => scanInt rest
  | _ => none

/-- The four numbers of a dotted address, 0 if there are not four. -/
def IPToUInt (ip : String) : BitVec 32 :=
  let address : Option (BitVec 32) := do
    let (a, s) ← scanInt ip.toList
    let (b, s) ← scanDotInt s
    let (c, s) ← scanDotInt s
    let (d, _) ← scanDotInt s
    return BitVec.ofInt 32 a <<< 24 ||| BitVec.ofInt 32 b <<< 16 ||| BitVec.ofInt 32 c <<< 8 |||
      BitVec.ofInt 32 d
  address.getD 0

structure IPNetwork where
  address_begin : BitVec 32
  address_end : BitVec 32
  id : String
deriving DecidableEq

def networkOf (network mask location : String) : IPNetwork :=
  let network_addr := IPToUInt network
  let mask_addr := IPToUInt mask
  let net_lower := network_addr &&& mask_addr
  ⟨net_lower, net_lower ||| ~~~mask_addr, location⟩

-- ---------------------------------------------------------------------------
-- The networks map
-- ---------------------------------------------------------------------------

abbrev NetworksMap := OrderedMap String (List IPNetwork)

/-- Insertion at `std::upper_bound`: behind the networks that begin no later. -/
def insertNetwork (net : IPNetwork) : List IPNetwork → List IPNetwork
  | [] => [net]
  | other :: rest =>
    if net.address_begin < other.address_begin then net :: other :: rest
    else other :: insertNetwork net rest

def AddNetwork (networks_map : NetworksMap) (key : String) (net : IPNetwork) : NetworksMap :=
  match networks_map.find? key with
  | some networks => networks_map.assign key (insertNetwork net networks)
  | none => networks_map.insert key [net]

/-- Drop the networks of a location under every key. -/
def RefreshNetworksMap (networks_map : NetworksMap) (location : String) : NetworksMap :=
  ⟨networks_map.entries.map fun e => (e.1, e.2.filter fun net => location ≠ net.id), by
    unfold KeysLt
    rw [List.pairwise_map]
    exact networks_map.sorted⟩

-- ---------------------------------------------------------------------------
-- Hostname records
-- ---------------------------------------------------------------------------

/-- A VPN and its network ranges: `network/mask`, separated by commas. -/
structure LanSegment where
  vpn : String
  network_ranges : String

structure Link where
  overlay : String
  underlay : String
  link_type : String
  traffic_destination : String
  metadata : String

/-- The JSON of a hostname record, with its optional members. -/
structure RecordContent where
  fq_name : Option (List String)
  hostaddr : Option String
  tenant : Option String
  location : Option String
  device : Option String
  hostname_tags : Option String
  linkmap : Option (List Link)
  lan_segment_list : Option (List LanSegment)

structure HostnameRecord where
  hostaddr : String
  tenant : String
  location : String
  device : String
  tags : String
  linkmap : OrderedMap String String

namespace RecordContent

variable (hr : RecordContent)

def name : String := (hr.fq_name.getD []).getLast?.getD ""

def locationText : String := hr.location.getD ""

def tenantText : String := hr.tenant.getD ""

def links : OrderedMap String String :=
  .ofList ((hr.linkmap.getD []).map fun l =>
    (l.overlay, l.underlay ++ "@" ++ l.link_type ++ "@" ++ l.traffic_destination ++ "@" ++
      l.metadata))

def record : HostnameRecord where
  hostaddr := hr.hostaddr.getD ""
  tenant := hr.tenantText
  location := hr.locationText
  device := hr.device.getD ""
  tags := hr.hostname_tags.getD ""
  linkmap := hr.links

/-- Every range of the LAN segments has an address and a mask. -/
def masked : Bool :=
  (hr.lan_segment_list.getD []).all fun segment =>
    (split_into_vector segment.network_ranges ',').all fun range =>
      2 ≤ (split_into_vector range '/').length

/-- The networks of the LAN segments, with their keys, in the order added. -/
def networks : List (String × IPNetwork) :=
  (hr.lan_segment_list.getD []).flatMap fun segment =>
    (split_into_vector segment.network_ranges ',').map fun range =>
      let ip_and_subnet := split_into_vector range '/'
      (hr.tenantText ++ "::" ++ segment.vpn,
        networkOf (ip_and_subnet.getD 0 "") (ip_and_subnet.getD 1 "") hr.locationText)

end RecordContent

structure SyslogConfig where
  hostname_records : OrderedMap String HostnameRecord
  networks_map : NetworksMap

/-- The LAN segments of a message: the location is refreshed if some record has
it, and the networks are added. -/
def lanSegments (s : SyslogConfig) (hr : RecordContent) : NetworksMap :=
  if hr.lan_segment_list.isSome then
    let location_exists :=
      s.hostname_records.entries.any fun e => hr.locationText = e.2.location
    let refreshed :=
      if location_exists then RefreshNetworksMap s.networks_map hr.locationText
      else s.networks_map
    hr.networks.foldl (fun m e => AddNetwork m e.1 e.2) refreshed
  else s.networks_map

/-- What the message of one record changes; `add_update` is false for a delete. -/
def hostnameRecord (s : SyslogConfig) (hr : RecordContent) (add_update : Bool) : SyslogConfig :=
  let networks_map := lanSegments s hr
  if add_update then
    { hostname_records := s.hostname_records.assign hr.name hr.record
      networks_map := networks_map }
  else
    match s.hostname_records.find? hr.name with
    | some old =>
      { hostname_records := s.hostname_records.erase hr.name
        networks_map :=
          if old.location ≠ "" then RefreshNetworksMap networks_map hr.locationText
          else networks_map }
    | none => { s with networks_map := networks_map }

/-- `ip_and_subnet[1]` is read unchecked: `none` is the undefined behaviour of a range that has
no mask. -/
def HostnameRecordsHandler (s : SyslogConfig) (hr : RecordContent) (add_update : Bool) :
    Option SyslogConfig :=
  if hr.masked then some (hostnameRecord s hr add_update) else none

-- ---------------------------------------------------------------------------
-- The networks under one key
-- ---------------------------------------------------------------------------

/-- The networks the map holds under a key, as a multiset. -/
def netsAt (m : NetworksMap) (key : String) : Multiset IPNetwork := ((m.find? key).getD [] : List _)

/-- The networks a record has under a key. -/
def RecordContent.netsOf (hr : RecordContent) (key : String) : List IPNetwork :=
  (hr.networks.filter fun e => e.1 = key).map Prod.snd

theorem insertNetwork_perm (net : IPNetwork) (l : List IPNetwork) :
    (insertNetwork net l).Perm (net :: l) := by
  induction l with
  | nil => exact List.Perm.refl _
  | cons other rest ih =>
    rw [insertNetwork]
    split
    · exact List.Perm.refl _
    · exact (ih.cons other).trans (List.Perm.swap _ _ _)

theorem netsAt_add (m : NetworksMap) (k key : String) (net : IPNetwork) :
    netsAt (AddNetwork m k net) key =
      (if k = key then ({net} : Multiset IPNetwork) else 0) + netsAt m key := by
  unfold AddNetwork netsAt
  cases hfind : m.find? k with
  | none =>
    rw [OrderedMap.find?_insert]
    by_cases hk : k = key
    · subst hk
      simp [hfind]
    · simp [hk, Ne.symm hk]
  | some networks =>
    rw [OrderedMap.find?_assign]
    by_cases hk : k = key
    · subst hk
      have hperm := Multiset.coe_eq_coe.mpr (insertNetwork_perm net networks)
      simpa [hfind] using hperm
    · simp [hk, Ne.symm hk]

theorem netsAt_foldl_add (l : List (String × IPNetwork)) (m : NetworksMap) (key : String) :
    netsAt (l.foldl (fun m e => AddNetwork m e.1 e.2) m) key =
      (((l.filter fun e => e.1 = key).map Prod.snd : List IPNetwork) : Multiset IPNetwork) +
        netsAt m key := by
  induction l generalizing m with
  | nil => simp
  | cons e rest ih =>
    rw [List.foldl_cons, ih, netsAt_add]
    by_cases hk : e.1 = key
    · simp [hk, ← Multiset.cons_coe, Multiset.cons_add]
    · simp [hk]

theorem findList_map_snd {β γ : Type} (f : β → γ) (key : String) (l : List (String × β)) :
    findList key (l.map fun e => (e.1, f e.2)) = (findList key l).map f := by
  induction l with
  | nil => rfl
  | cons e rest ih =>
    obtain ⟨k, v⟩ := e
    rw [List.map_cons, findList, findList]
    split
    · rfl
    · exact ih

theorem netsAt_refresh (m : NetworksMap) (location key : String) :
    netsAt (RefreshNetworksMap m location) key =
      (netsAt m key).filter fun net => location ≠ net.id := by
  have hfind : (RefreshNetworksMap m location).find? key =
      (m.find? key).map fun l => l.filter fun net => location ≠ net.id :=
    findList_map_snd _ key m.entries
  rw [netsAt, netsAt, hfind]
  cases m.find? key <;> simp [Multiset.filter_coe]

theorem RecordContent.id_of_mem {hr : RecordContent} {key : String} {net : IPNetwork}
    (h : net ∈ hr.netsOf key) : net.id = hr.locationText := by
  obtain ⟨e, he, rfl⟩ := List.mem_map.mp h
  rw [List.mem_filter, RecordContent.networks, List.mem_flatMap] at he
  obtain ⟨⟨segment, -, he⟩, -⟩ := he
  obtain ⟨range, -, rfl⟩ := List.mem_map.mp he
  rfl

/-- Nothing under any key means no networks at all. -/
theorem RecordContent.netsOf_eq_nil_iff (hr : RecordContent) :
    (∀ key, hr.netsOf key = []) ↔ hr.networks = [] := by
  constructor
  · intro h
    rw [List.eq_nil_iff_forall_not_mem]
    intro e he
    have hmem : e.2 ∈ hr.netsOf e.1 :=
      List.mem_map.mpr ⟨e, List.mem_filter.mpr ⟨he, by simp⟩, rfl⟩
    rw [h] at hmem
    cases hmem
  · intro h key
    simp [netsOf, h]

-- ---------------------------------------------------------------------------
-- The configuration and its mirror
-- ---------------------------------------------------------------------------

/-- What the collector is told about one record. -/
inductive RecordEvent where
  | add (hr : RecordContent)
  | delete (name : String)

/-- The configuration, the last content of each record under its name, next to
what the collector keeps of it. -/
structure ConfigState where
  config : OrderedMap String RecordContent
  syslog : SyslogConfig

def ConfigState.init : ConfigState := ⟨.empty, ⟨.empty, .empty⟩⟩

/-- The configuration after a message, and the record that the message carries. A delete is sent
for a record that exists and carries its last content. -/
def configStep (config : OrderedMap String RecordContent) :
    RecordEvent → Option (OrderedMap String RecordContent × RecordContent × Bool)
  | .add hr => some (config.assign hr.name hr, hr, true)
  | .delete name => (config.find? name).map fun hr => (config.erase name, hr, false)

/-- `none` if the message is not sent, `some none` if the handler runs into undefined
behaviour. -/
def recordStep (s : ConfigState) (e : RecordEvent) : Option (Option ConfigState) :=
  (configStep s.config e).map fun step =>
    (HostnameRecordsHandler s.syslog step.2.1 step.2.2).map fun syslog => ⟨step.1, syslog⟩

/-- The networks the configuration has under a key. -/
def expectedNets (config : OrderedMap String RecordContent) (key : String) : List IPNetwork :=
  config.entries.flatMap fun e => e.2.netsOf key

/-- Those of the records at one location. -/
def expectedNetsAt (config : OrderedMap String RecordContent) (location key : String) :
    List IPNetwork :=
  (config.entries.filter fun e => e.2.locationText = location).flatMap fun e => e.2.netsOf key

/-- The map holds exactly the networks of the configured records, each with its
record's location. -/
def Mirrors (s : ConfigState) : Prop :=
  ∀ key, netsAt s.syslog.networks_map key = (expectedNets s.config key : Multiset IPNetwork)

/-- The records kept are those configured. -/
structure Tracks (s : ConfigState) : Prop where
  records : ∀ name, s.syslog.hostname_records.find? name =
    (s.config.find? name).map RecordContent.record
  names : ∀ name hr, s.config.find? name = some hr → hr.name = name
  masked : ∀ name hr, s.config.find? name = some hr → hr.masked = true

theorem tracks_init : Tracks .init := ⟨fun _ => rfl, nofun, nofun⟩

/-- What a message does, where the handler comes to its end. -/
theorem recordStep_cases {s : ConfigState} {e : RecordEvent} {next : Option ConfigState}
    (hstep : recordStep s e = some next) :
    (∃ hr, e = .add hr ∧ next = if hr.masked then
      some ⟨s.config.assign hr.name hr, hostnameRecord s.syslog hr true⟩ else none) ∨
    ∃ name hr, e = .delete name ∧ s.config.find? name = some hr ∧ next = if hr.masked then
      some ⟨s.config.erase name, hostnameRecord s.syslog hr false⟩ else none := by
  obtain ⟨step, hconfig, hnext⟩ := Option.map_eq_some_iff.mp hstep
  rw [HostnameRecordsHandler] at hnext
  cases e with
  | add hr =>
    obtain rfl := Option.some.inj hconfig
    refine .inl ⟨hr, rfl, ?_⟩
    rw [← hnext]
    split <;> rfl
  | delete name =>
    obtain ⟨hr, hfind, rfl⟩ := Option.map_eq_some_iff.mp hconfig
    refine .inr ⟨name, hr, rfl, hfind, ?_⟩
    rw [← hnext]
    split <;> rfl

theorem Tracks.step {s s' : ConfigState} {e : RecordEvent} (h : Tracks s)
    (hstep : recordStep s e = some (some s')) : Tracks s' := by
  rcases recordStep_cases hstep with ⟨hr, -, hnext⟩ | ⟨name, hr, -, hfind, hnext⟩
  · split at hnext
    · rename_i hmasked
      obtain rfl := Option.some.inj hnext
      constructor
      · intro name
        simp only [hostnameRecord, if_true, OrderedMap.find?_assign, h.records]
        by_cases hn : name = hr.name <;> simp [hn]
      · intro name hr' hfind
        rw [OrderedMap.find?_assign] at hfind
        by_cases hn : name = hr.name
        · rw [if_pos hn] at hfind
          injection hfind with hfind
          rw [← hfind, hn]
        · rw [if_neg hn] at hfind
          exact h.names name hr' hfind
      · intro name hr' hfind
        rw [OrderedMap.find?_assign] at hfind
        split at hfind
        · obtain rfl := Option.some.inj hfind
          exact hmasked
        · exact h.masked name hr' hfind
    · cases hnext
  · rw [if_pos (h.masked name hr hfind)] at hnext
    obtain rfl := Option.some.inj hnext
    have hname := h.names name hr hfind
    have hrec : s.syslog.hostname_records.find? name = some hr.record := by
      rw [h.records, hfind, Option.map_some]
    constructor
    · intro n
      simp only [hostnameRecord, hname, hrec, OrderedMap.find?_erase, h.records,
        Bool.false_eq_true, if_false]
      by_cases hn : n = name <;> simp [hn]
    · intro n hr' hn
      rw [OrderedMap.find?_erase] at hn
      split at hn
      · cases hn
      · exact h.names n hr' hn
    · intro n hr' hn
      rw [OrderedMap.find?_erase] at hn
      split at hn
      · cases hn
      · exact h.masked n hr' hn

/-- Some record has the location, as the handler finds out. -/
theorem Tracks.location_exists {s : ConfigState} (h : Tracks s) (location : String) :
    (s.syslog.hostname_records.entries.any fun e => location = e.2.location) = true ↔
      ∃ name hr, s.config.find? name = some hr ∧ hr.locationText = location := by
  simp only [List.any_eq_true, decide_eq_true_eq]
  constructor
  · rintro ⟨⟨name, r⟩, hmem, hloc⟩
    rw [OrderedMap.mem_entries, h.records, Option.map_eq_some_iff] at hmem
    obtain ⟨hr, hfind, rfl⟩ := hmem
    exact ⟨name, hr, hfind, hloc.symm⟩
  · rintro ⟨name, hr, hfind, hloc⟩
    refine ⟨(name, hr.record), ?_, hloc.symm⟩
    rw [OrderedMap.mem_entries, h.records, hfind, Option.map_some]

-- ---------------------------------------------------------------------------
-- Multisets of networks
-- ---------------------------------------------------------------------------

theorem netsOf_filter (hr : RecordContent) (location key : String) :
    (hr.netsOf key).filter (fun net => location = net.id) =
      if hr.locationText = location then hr.netsOf key else [] := by
  split
  · rename_i hloc
    rw [List.filter_eq_self]
    intro net hnet
    simp [RecordContent.id_of_mem hnet, hloc]
  · rename_i hloc
    rw [List.filter_eq_nil_iff]
    intro net hnet
    simp [RecordContent.id_of_mem hnet, Ne.symm hloc]

/-- The networks at one location are those of the records there. -/
theorem expectedNets_filter (config : OrderedMap String RecordContent) (location key : String) :
    (expectedNets config key).filter (fun net => location = net.id) =
      expectedNetsAt config location key := by
  unfold expectedNets expectedNetsAt
  induction config.entries with
  | nil => rfl
  | cons e rest ih =>
    rw [List.flatMap_cons, List.filter_append, ih, netsOf_filter]
    by_cases hloc : e.2.locationText = location <;> simp [hloc]

theorem expectedNets_assign (config : OrderedMap String RecordContent) (hr : RecordContent)
    (name key : String) :
    (expectedNets (config.assign name hr) key : Multiset IPNetwork) =
      (hr.netsOf key : Multiset IPNetwork) + (expectedNets (config.erase name) key : List _) := by
  rw [Multiset.coe_add, Multiset.coe_eq_coe]
  exact (OrderedMap.assign_entries_perm config name hr).flatMap_right _

/-- The networks of the record a name has now. -/
def oldNets (config : OrderedMap String RecordContent) (name key : String) : List IPNetwork :=
  ((config.find? name).map fun hr => hr.netsOf key).getD []

theorem expectedNets_split (config : OrderedMap String RecordContent) (name key : String) :
    (expectedNets config key : Multiset IPNetwork) =
      (oldNets config name key : Multiset IPNetwork) +
        (expectedNets (config.erase name) key : List _) := by
  unfold oldNets
  cases hfind : config.find? name with
  | none =>
    have herase : config.erase name = config := by
      apply OrderedMap.ext_find
      intro k
      rw [OrderedMap.find?_erase]
      by_cases hk : k = name <;> simp [hk, hfind]
    simp [herase]
  | some hr =>
    simp only [Option.map_some, Option.getD_some]
    rw [Multiset.coe_add, Multiset.coe_eq_coe]
    exact (OrderedMap.entries_perm_of_find hfind).flatMap_right _

/-- Dropping one location from `A + X` leaves `X` only if `X` had nothing there
and `A` nothing elsewhere. -/
theorem filter_add_eq_iff {α : Type} (p : α → Prop) [DecidablePred p] (A X : Multiset α) :
    (A + X).filter (fun x => ¬p x) = X ↔
      A.filter (fun x => ¬p x) = 0 ∧ X.filter p = 0 := by
  rw [Multiset.filter_add]
  constructor
  · intro h
    have heq : A.filter (fun x => ¬p x) = X.filter p := by
      have hX := Multiset.filter_add_not p X
      have hcancel : A.filter (fun x => ¬p x) + X.filter (fun x => ¬p x) =
          X.filter p + X.filter (fun x => ¬p x) := by rw [h, hX]
      exact add_right_cancel hcancel
    have hzero : X.filter p = 0 := by
      rw [Multiset.eq_zero_iff_forall_notMem]
      intro x hx
      have hneg := (Multiset.mem_filter.mp (heq ▸ hx)).2
      exact hneg (Multiset.mem_filter.mp hx).2
    exact ⟨heq.trans hzero, hzero⟩
  · rintro ⟨hA, hX⟩
    have h := Multiset.filter_add_not p X
    rw [hX, zero_add] at h
    rw [hA, zero_add, h]

-- ---------------------------------------------------------------------------
-- One message
-- ---------------------------------------------------------------------------

/-- No other record at the location has networks. -/
def AloneAt (config : OrderedMap String RecordContent) (name location : String) : Prop :=
  ∀ e ∈ (config.erase name).entries, e.2.locationText = location → e.2.networks = []

theorem aloneAt_iff (config : OrderedMap String RecordContent) (name location : String) :
    AloneAt config name location ↔
      ∀ key, ((expectedNets (config.erase name) key : List IPNetwork) : Multiset IPNetwork).filter
        (fun net => location = net.id) = 0 := by
  simp only [Multiset.filter_coe, expectedNets_filter, Multiset.coe_eq_zero, expectedNetsAt,
    List.flatMap_eq_nil_iff, List.mem_filter, decide_eq_true_eq, and_imp]
  constructor
  · intro h key e he hloc
    exact (RecordContent.netsOf_eq_nil_iff e.2).mpr (h e he hloc) key
  · intro h e he hloc
    exact (RecordContent.netsOf_eq_nil_iff e.2).mp fun key => h key e he hloc

/-- What the LAN segments of a message make of the networks under a key. -/
theorem netsAt_lanSegments {s : ConfigState} (hT : Tracks s) (hr : RecordContent) (key : String)
    [Decidable (∃ name r, s.config.find? name = some r ∧ r.locationText = hr.locationText)] :
    netsAt (lanSegments s.syslog hr) key = (hr.netsOf key : Multiset IPNetwork) +
      if hr.lan_segment_list.isSome = true ∧
        ∃ name r, s.config.find? name = some r ∧ r.locationText = hr.locationText then
        (netsAt s.syslog.networks_map key).filter fun net => ¬hr.locationText = net.id
      else netsAt s.syslog.networks_map key := by
  unfold lanSegments
  cases hlan : hr.lan_segment_list with
  | none =>
    simp [RecordContent.netsOf, RecordContent.networks, hlan]
  | some segments =>
    simp only [Option.isSome_some, if_true, true_and, netsAt_foldl_add]
    congr 1
    by_cases hex : ∃ name r, s.config.find? name = some r ∧ r.locationText = hr.locationText
    · rw [if_pos ((hT.location_exists _).mpr hex), if_pos hex, netsAt_refresh]
    · rw [if_neg (fun h => hex ((hT.location_exists _).mp h)), if_neg hex]

/-- The record's own networks are dropped with the location, or there are none. -/
theorem oldNets_filter_iff (config : OrderedMap String RecordContent) (name location : String) :
    (∀ key, ((oldNets config name key : List IPNetwork) : Multiset IPNetwork).filter
        (fun net => ¬location = net.id) = 0) ↔
      ∀ old, config.find? name = some old → old.networks = [] ∨ old.locationText = location := by
  unfold oldNets
  cases hfind : config.find? name with
  | none => simp
  | some old =>
    simp only [Option.map_some, Option.getD_some, Option.some.injEq, forall_eq',
      Multiset.filter_coe, Multiset.coe_eq_zero, List.filter_eq_nil_iff, decide_eq_true_eq,
      not_not]
    constructor
    · intro h
      by_cases hnets : old.networks = []
      · exact .inl hnets
      · right
        rw [← RecordContent.netsOf_eq_nil_iff] at hnets
        push Not at hnets
        obtain ⟨key, hkey⟩ := hnets
        obtain ⟨net, hnet⟩ := List.exists_mem_of_ne_nil _ hkey
        rw [h key net hnet, RecordContent.id_of_mem hnet]
    · rintro (hnets | hloc) key net hnet
      · rw [(RecordContent.netsOf_eq_nil_iff old).mpr hnets key] at hnet
        cases hnet
      · rw [RecordContent.id_of_mem hnet, hloc]

theorem oldNets_eq_nil_iff (config : OrderedMap String RecordContent) (name : String) :
    (∀ key, oldNets config name key = []) ↔
      ∀ old, config.find? name = some old → old.networks = [] := by
  unfold oldNets
  cases hfind : config.find? name with
  | none => simp
  | some old => simp [RecordContent.netsOf_eq_nil_iff]

/-- An add or update keeps the map in step: no other record at its location
has networks if it brings LAN segments, and it leaves no networks of its own
behind, at another location or by bringing none. -/
def AddKeeps (config : OrderedMap String RecordContent) (hr : RecordContent) : Prop :=
  (hr.lan_segment_list.isSome = true → AloneAt config hr.name hr.locationText) ∧
    ∀ old, config.find? hr.name = some old → old.networks = [] ∨
      (hr.lan_segment_list.isSome = true ∧ old.locationText = hr.locationText)

theorem mirrors_add_iff {s : ConfigState} (hT : Tracks s) (hM : Mirrors s) (hr : RecordContent) :
    Mirrors ⟨s.config.assign hr.name hr, hostnameRecord s.syslog hr true⟩ ↔
      AddKeeps s.config hr := by
  classical
  have hbefore : ∀ key, netsAt s.syslog.networks_map key =
      (oldNets s.config hr.name key : Multiset IPNetwork) +
        (expectedNets (s.config.erase hr.name) key : List _) :=
    fun key => (hM key).trans (expectedNets_split s.config hr.name key)
  have hafter : Mirrors ⟨s.config.assign hr.name hr, hostnameRecord s.syslog hr true⟩ ↔
      ∀ key, netsAt (lanSegments s.syslog hr) key = (hr.netsOf key : Multiset IPNetwork) +
        (expectedNets (s.config.erase hr.name) key : List _) := by
    simp only [Mirrors, hostnameRecord, if_true, expectedNets_assign]
  rw [hafter]
  simp only [netsAt_lanSegments hT, add_right_inj, hbefore]
  by_cases hrefresh : hr.lan_segment_list.isSome = true ∧
      ∃ name r, s.config.find? name = some r ∧ r.locationText = hr.locationText
  · simp only [if_pos hrefresh, filter_add_eq_iff, forall_and]
    rw [oldNets_filter_iff, ← aloneAt_iff, AddKeeps, and_comm]
    simp [hrefresh.1]
  · simp only [if_neg hrefresh, add_eq_right, Multiset.coe_eq_zero]
    rw [oldNets_eq_nil_iff, AddKeeps]
    constructor
    · intro h
      refine ⟨fun hlan e he hloc => absurd ⟨hlan, e.1, e.2, ?_, hloc⟩ hrefresh,
        fun old hold => .inl (h old hold)⟩
      have he : (e.1, e.2) ∈ (s.config.erase hr.name).entries := he
      rw [OrderedMap.mem_entries, OrderedMap.find?_erase] at he
      split at he
      · cases he
      · exact he
    · rintro ⟨-, h⟩ old hold
      exact (h old hold).resolve_right fun hsame => hrefresh ⟨hsame.1, _, old, hold, hsame.2⟩

/-- A delete keeps the map in step: no other record at its location has
networks. Without a location nothing is removed at the end, so the networks
that the message has put back must be those of the others. -/
def DeleteKeeps (config : OrderedMap String RecordContent) (hr : RecordContent) : Prop :=
  if hr.locationText ≠ "" then AloneAt config hr.name hr.locationText
  else hr.lan_segment_list.isSome = true →
    ∀ key, (expectedNetsAt (config.erase hr.name) "" key).Perm (hr.netsOf key)

/-- The networks of a record have the id of its location. -/
theorem RecordContent.filter_netsOf (hr : RecordContent) (key : String) :
    ((hr.netsOf key : List IPNetwork) : Multiset IPNetwork).filter
      (fun net => ¬hr.locationText = net.id) = 0 := by
  rw [Multiset.filter_eq_nil]
  intro net hnet
  rw [RecordContent.id_of_mem hnet, not_not]

theorem RecordContent.netsOf_eq_nil {hr : RecordContent}
    (hlan : ¬hr.lan_segment_list.isSome = true) (key : String) : hr.netsOf key = [] := by
  rw [Option.not_isSome_iff_eq_none] at hlan
  simp [RecordContent.netsOf, RecordContent.networks, hlan]

/-- A delete first adds the LAN segments of the message, then removes what is at the
location, if there is one. -/
theorem netsAt_delete {s : SyslogConfig} {hr : RecordContent}
    (hrec : s.hostname_records.find? hr.name = some hr.record) (key : String) :
    netsAt (hostnameRecord s hr false).networks_map key =
      if hr.locationText ≠ "" then
        (netsAt (lanSegments s hr) key).filter fun net => ¬hr.locationText = net.id
      else netsAt (lanSegments s hr) key := by
  simp only [hostnameRecord, hrec, Bool.false_eq_true, if_false]
  by_cases hloc : hr.locationText = ""
  · simp [hloc, RecordContent.record]
  · rw [if_pos hloc, ← netsAt_refresh]
    simp [hloc, RecordContent.record]

theorem mirrors_delete_iff {s : ConfigState} (hT : Tracks s) (hM : Mirrors s) {name : String}
    {hr : RecordContent} (hfind : s.config.find? name = some hr) :
    Mirrors ⟨s.config.erase name, hostnameRecord s.syslog hr false⟩ ↔
      DeleteKeeps s.config hr := by
  classical
  obtain rfl := hT.names name hr hfind
  have hold : ∀ key, oldNets s.config hr.name key = hr.netsOf key := by
    intro key
    rw [oldNets, hfind, Option.map_some, Option.getD_some]
  -- before, a segment has the networks of this record and those of the others
  have hbefore : ∀ key, netsAt s.syslog.networks_map key = (hr.netsOf key : Multiset IPNetwork) +
      (expectedNets (s.config.erase hr.name) key : List _) := by
    intro key
    rw [hM key, expectedNets_split s.config hr.name key, hold]
  have hrec : s.syslog.hostname_records.find? hr.name = some hr.record := by
    rw [hT.records, hfind, Option.map_some]
  have hex : ∃ name r, s.config.find? name = some r ∧ r.locationText = hr.locationText :=
    ⟨_, hr, hfind, rfl⟩
  -- what stays has another location than the record
  have hkept : ∀ key, ((hr.netsOf key : Multiset IPNetwork) +
      (expectedNets (s.config.erase hr.name) key : List _)).filter
        (fun net => ¬hr.locationText = net.id) =
      ((expectedNets (s.config.erase hr.name) key : List _) : Multiset IPNetwork).filter
        (fun net => ¬hr.locationText = net.id) := by
    intro key
    rw [Multiset.filter_add, hr.filter_netsOf, zero_add]
  simp only [Mirrors, netsAt_delete hrec, netsAt_lanSegments hT, hbefore, hex, and_true]
  unfold DeleteKeeps
  -- a location: all networks of that location go, also those of other records
  by_cases hloc : hr.locationText ≠ ""
  · have hall : ∀ key, ((hr.netsOf key : Multiset IPNetwork) +
        if hr.lan_segment_list.isSome = true then
          ((hr.netsOf key : Multiset IPNetwork) +
            (expectedNets (s.config.erase hr.name) key : List _)).filter
              fun net => ¬hr.locationText = net.id
        else (hr.netsOf key : Multiset IPNetwork) +
          (expectedNets (s.config.erase hr.name) key : List _)).filter
            (fun net => ¬hr.locationText = net.id) =
        ((hr.netsOf key : Multiset IPNetwork) +
          (expectedNets (s.config.erase hr.name) key : List _)).filter
            (fun net => ¬hr.locationText = net.id) := by
      intro key
      rw [Multiset.filter_add, hr.filter_netsOf, zero_add]
      split
      · rw [Multiset.filter_filter]
        simp only [and_self]
      · rfl
    simp only [if_pos hloc, hall, filter_add_eq_iff, hr.filter_netsOf, true_and]
    exact (aloneAt_iff s.config hr.name hr.locationText).symm
  · simp only [if_neg hloc]
    -- no location: only the segments of the record are gone through
    rw [not_not] at hloc
    by_cases hlan : hr.lan_segment_list.isSome = true
    · simp only [hkept, hlan, if_true, forall_const]
      apply forall_congr'
      intro key
      have hsplit := Multiset.filter_add_not (fun net : IPNetwork => hr.locationText = net.id)
        ((expectedNets (s.config.erase hr.name) key : List _) : Multiset IPNetwork)
      -- what they lose is to be what the record had there
      have hperm : (expectedNetsAt (s.config.erase hr.name) "" key).Perm (hr.netsOf key) ↔
          (hr.netsOf key : Multiset IPNetwork) =
            ((expectedNets (s.config.erase hr.name) key : List _) : Multiset IPNetwork).filter
              (fun net => hr.locationText = net.id) := by
        rw [Multiset.filter_coe, expectedNets_filter, Multiset.coe_eq_coe, hloc]
        exact List.perm_comm
      have hcancel := add_left_inj
        (((expectedNets (s.config.erase hr.name) key : List _) : Multiset IPNetwork).filter
          (fun net => ¬hr.locationText = net.id)) (b := (hr.netsOf key : Multiset IPNetwork))
        (c := ((expectedNets (s.config.erase hr.name) key : List _) : Multiset IPNetwork).filter
          (fun net => hr.locationText = net.id))
      rw [hsplit] at hcancel
      rw [hperm, hcancel]
    · simp [hlan, RecordContent.netsOf_eq_nil hlan]

-- ---------------------------------------------------------------------------
-- Sequences of messages
-- ---------------------------------------------------------------------------

/-- The message keeps the map in step with the records. What a delete carries has been added
before, so its ranges have masks. -/
def Keeps (config : OrderedMap String RecordContent) : RecordEvent → Prop
  | .add hr => hr.masked = true ∧ AddKeeps config hr
  | .delete name => ∀ hr, config.find? name = some hr → DeleteKeeps config hr

/-- `P` holds of every step of a sequence of messages, up to undefined behaviour. -/
def Along (P : ConfigState → RecordEvent → Option ConfigState → Prop) :
    ConfigState → List RecordEvent → Prop
  | _, [] => True
  | s, e :: es =>
    match recordStep s e with
    | none => True
    | some none => P s e none
    | some (some s') => P s e (some s') ∧ Along P s' es

/-- The handler came to its end, and the map mirrors the records. -/
def MirrorsAfter (_ : ConfigState) (_ : RecordEvent) (next : Option ConfigState) : Prop :=
  ∃ s', next = some s' ∧ Mirrors s'

theorem mirrors_step_iff {s : ConfigState} {e : RecordEvent} {next : Option ConfigState}
    (hT : Tracks s) (hM : Mirrors s) (hstep : recordStep s e = some next) :
    MirrorsAfter s e next ↔ Keeps s.config e := by
  rcases recordStep_cases hstep with ⟨hr, rfl, rfl⟩ | ⟨name, hr, rfl, hfind, rfl⟩
  · by_cases hmasked : hr.masked = true
    · simp only [MirrorsAfter, Keeps, hmasked, if_true, true_and, Option.some.injEq,
        exists_eq_left']
      exact mirrors_add_iff hT hM hr
    · simp [MirrorsAfter, Keeps, hmasked]
  · simp only [MirrorsAfter, Keeps, hT.masked name hr hfind, if_true, hfind, Option.some.injEq,
      exists_eq_left', forall_eq']
    exact mirrors_delete_iff hT hM hfind

theorem mirrors_along {s : ConfigState} (hT : Tracks s) (hM : Mirrors s)
    (events : List RecordEvent) :
    Along MirrorsAfter s events ↔ Along (fun s e _ => Keeps s.config e) s events := by
  induction events generalizing s with
  | nil => exact Iff.rfl
  | cons e es ih =>
    unfold Along
    cases hstep : recordStep s e with
    | none => exact Iff.rfl
    | some next =>
      have hiff := mirrors_step_iff hT hM hstep
      cases next with
      | none => exact hiff
      | some s' =>
        refine (and_congr_left' hiff).trans (and_congr_right fun hkeeps => ?_)
        obtain ⟨s'', hs'', hM'⟩ := hiff.mpr hkeeps
        obtain rfl := Option.some.inj hs''
        exact ih (hT.step hstep) hM'

/-- From an empty configuration, the networks map mirrors the records after every
message of a sequence if and only if every message of it keeps it in step. -/
theorem mirrors_along_iff (events : List RecordEvent) :
    Along MirrorsAfter .init events ↔ Along (fun s e _ => Keeps s.config e) .init events :=
  mirrors_along tracks_init (fun _ => rfl) events

/-- A record with one network, at a location. -/
def sampleRecord (name location : String) : RecordContent where
  fq_name := some ["default-global-system-config", name]
  hostaddr := none
  tenant := some "t"
  location := some location
  device := none
  hostname_tags := none
  linkmap := none
  lan_segment_list := some [⟨"v", "10.0.0.0/255.0.0.0"⟩]

/-- When a record moves to a location that no record has, its networks stay
behind under the old one. -/
theorem moved_record_leaves_networks :
    ¬∀ events : List RecordEvent, Along MirrorsAfter .init events := by
  intro h
  obtain ⟨s', hs', hmirrors⟩ := (h [.add (sampleRecord "a" "x"), .add (sampleRecord "a" "y")]).2.1
  obtain rfl := Option.some.inj hs'
  have hnets := hmirrors "t::v"
  revert hnets
  decide

end TfAnalytics.Collector
