import TfAnalytics.Lib.OrderedMap
import Mathlib.Data.List.Infix
import Mathlib.Data.String.Basic

/-!
# Topology: the computed L2 interfaces and the records sent for them

`Controller._uve_scanner` of `tf_topology/controller.py`, one round of its loop at
a time: `compute` reads the SNMP tables of every physical router and builds
`_vrouter_l2ifs`, and `send_uve` sends a `VRouterL2IfUVE` for what differs from
`_old_vrouter_l2ifs`.

* a table that a router's entry lacks, an interface index that its `ifTable` lacks
  and the other `KeyError`s and `IndexError`s are a raise (`none`); `_uve_scanner`
  catches it and skips `send_uve`
* `compute` moves `_vrouter_l2ifs` to `_old_vrouter_l2ifs` before its loop, so after
  a raise the next round compares with the routers that came before the raise
* what the collector shows is the fold of the records sent (`published`)

Main results:

* `published_send_uve` — one `send_uve` brings exactly the vrouters up to date on
  which the two tables differ.
* `published_follows_iff` — the records follow the computed table along a run, and
  along every run that leaves it by one round, iff each raise leaves a table equal
  to what was last sent.
-/

namespace TfAnalytics.Topology

open TfAnalytics.Lib

-- ---------------------------------------------------------------------------
-- The tables of a physical router
-- ---------------------------------------------------------------------------

structure IfTable where
  ifIndex : Int
  ifDescr : String
  deriving DecidableEq, Repr

structure LldpLocPortEntry where
  lldpLocPortNum : Int
  lldpLocPortId : String
  lldpLocPortDesc : String
  deriving DecidableEq, Repr

structure LldpLocalSystemData where
  lldpLocSysDesc : String
  lldpLocPortTable : List LldpLocPortEntry
  deriving DecidableEq, Repr

structure LldpRemoteSystemsData where
  lldpRemLocalPortNum : Int
  lldpRemPortDesc : String
  lldpRemPortId : String
  lldpRemSysName : String
  deriving DecidableEq, Repr

structure LldpTable where
  lldpLocalSystemData : LldpLocalSystemData
  lldpRemoteSystemsData : Option (List LldpRemoteSystemsData)
  deriving DecidableEq, Repr

structure ArpTable where
  localIfIndex : Int
  mac : String
  ip : String
  deriving DecidableEq, Repr

/-- `dot1qTpFdbPortTable` -/
structure FdbPortTable where
  mac : String
  dot1dBasePortIfIndex : Int
  deriving DecidableEq, Repr

/-- `dot1dBasePortIfIndexTable` -/
structure FdbPortIfIndexTable where
  dot1dBasePortIfIndex : Int
  snmpIfIndex : Int
  deriving DecidableEq, Repr

structure IfIndexOperStatusTable where
  ifIndex : Int
  ifOperStatus : Int
  deriving DecidableEq, Repr

/-- The tables are optional in `prouter.sandesh`: one not polled is not in the entry. -/
structure PRouterEntry where
  lldpTable : Option LldpTable
  arpTable : Option (List ArpTable)
  ifTable : Option (List IfTable)
  fdbPortTable : Option (List FdbPortTable)
  fdbPortIfIndexTable : Option (List FdbPortIfIndexTable)
  ifIndexOperStatusTable : Option (List IfIndexOperStatusTable)
  deriving DecidableEq, Repr

structure PRouter where
  name : String
  /-- `data.get('PRouterEntry')` -/
  data : Option PRouterEntry
  deriving DecidableEq, Repr

-- ---------------------------------------------------------------------------
-- The vrouters, links and records
-- ---------------------------------------------------------------------------

/-- The remote end of a vrouter's interface: the dictionary with these two keys in
`_vrouter_l2ifs`, and the struct of that name in the record sent. -/
structure RemoteIfInfo where
  remote_system_name : String
  remote_if_name : String
  deriving DecidableEq, Repr

abbrev IfMap := OrderedMap String RemoteIfInfo

/-- `_vrouter_l2ifs`: for each vrouter its interfaces and their remote ends. -/
abbrev L2Table := OrderedMap String IfMap

/-- An element of `VrouterAgent:phy_if`. -/
structure PhyIf where
  name : Option String
  mac_address : Option String
  deriving DecidableEq, Repr

structure VRouter where
  phy_if : List PhyIf
  l2_if : Option IfMap

/-- An entry of `vrouter_macs`; the interface name is missing where `phy_if` has none. -/
structure VRouterMac where
  vrname : String
  ifname : Option String
  deriving DecidableEq, Repr

inductive RemoteType
  | VRouter
  | PRouter
  | BMS
  deriving DecidableEq, Repr

structure LinkEntry where
  remote_system_name : String
  local_interface_name : String
  remote_interface_name : String
  local_interface_index : Int
  remote_interface_index : Int
  type : RemoteType
  deriving DecidableEq, Repr

abbrev LinkTable := OrderedMap String (List LinkEntry)

/-- What `bms_links` reads of a logical interface: its key in the config database, the
last part of its name and, for each interface reference, what the database has for it
(`some none`: an interface without the MAC address property). -/
structure LogicalInterface where
  fqname : String
  name : String
  vmis : List (Option (Option (List String)))

/-- What `scan_data` and the config handler leave for `compute`. -/
structure Inventory where
  vrouters : OrderedMap String VRouter
  vrouter_ips : OrderedMap String String
  vrouter_macs : OrderedMap String VRouterMac
  logical_interfaces : List LogicalInterface

structure VRouterL2IfInfo where
  name : String
  deleted : Option Bool := none
  if_info : Option IfMap := none

/-- An answer of the analytics API for a vrouter. -/
structure VrouterData where
  name : String
  self_ip_list : Option (List String)
  phy_if : Option (List PhyIf)
  l2_if : Option IfMap

-- ---------------------------------------------------------------------------
-- get_vrouters
-- ---------------------------------------------------------------------------

/-- One interface in `vrouter_macs`: the entry is made before `intf['name']` is read. -/
def indexMac (vr : String) (macs : OrderedMap String VRouterMac) (intf : PhyIf) :
    OrderedMap String VRouterMac :=
  match intf.mac_address with
  | none => macs
  | some mac => macs.assign mac ⟨vr, intf.name⟩

def get_vrouter (inv : Inventory) (d : VrouterData) : Inventory :=
  match d.self_ip_list, d.phy_if with
  | some ips, some ifs =>
    { inv with
      vrouters := inv.vrouters.assign d.name ⟨ifs, d.l2_if⟩
      vrouter_ips := ips.foldl (fun m ip => m.assign ip d.name) inv.vrouter_ips
      vrouter_macs := ifs.foldl (indexMac d.name) inv.vrouter_macs }
  | _, _ => inv

def get_vrouters (lifs : List LogicalInterface) (ds : List VrouterData) : Inventory :=
  ds.foldl get_vrouter ⟨.empty, .empty, .empty, lifs⟩

-- ---------------------------------------------------------------------------
-- Strings and dictionaries of Python
-- ---------------------------------------------------------------------------

def startswith (s pre : String) : Bool := pre.toList.isPrefixOf s.toList

/-- `part in s` -/
def isSubstring (part s : String) : Bool := decide (part.toList <:+: s.toList)

/-- The first code points of the blocks of ten decimal digits of Unicode. -/
def decimalBlocks : List Nat :=
  [0x30, 0x660, 0x6f0, 0x7c0, 0x966, 0x9e6, 0xa66, 0xae6, 0xb66, 0xbe6, 0xc66, 0xce6, 0xd66,
   0xde6, 0xe50, 0xed0, 0xf20, 0x1040, 0x1090, 0x17e0, 0x1810, 0x1946, 0x19d0, 0x1a80, 0x1a90,
   0x1b50, 0x1bb0, 0x1c40, 0x1c50, 0xa620, 0xa8d0, 0xa900, 0xa9d0, 0xa9f0, 0xaa50, 0xabf0,
   0xff10, 0x104a0, 0x10d30, 0x11066, 0x110f0, 0x11136, 0x111d0, 0x112f0, 0x11450, 0x114d0,
   0x11650, 0x116c0, 0x11730, 0x118e0, 0x11950, 0x11c50, 0x11d50, 0x11da0, 0x16a60, 0x16ac0,
   0x16b50, 0x1d7ce, 0x1d7d8, 0x1d7e2, 0x1d7ec, 0x1d7f6, 0x1e140, 0x1e2f0, 0x1e950, 0x1fbf0]

/-- The ranges of the digits that are no decimal digits, such as superscripts. -/
def otherDigits : List (Nat × Nat) :=
  [(0xb2, 0xb3), (0xb9, 0xb9), (0x1369, 0x1371), (0x19da, 0x19da), (0x2070, 0x2070),
   (0x2074, 0x2079), (0x2080, 0x2089), (0x2460, 0x2468), (0x2474, 0x247c), (0x2488, 0x2490),
   (0x24ea, 0x24ea), (0x24f5, 0x24fd), (0x24ff, 0x24ff), (0x2776, 0x277e), (0x2780, 0x2788),
   (0x278a, 0x2792), (0x10a40, 0x10a43), (0x10e60, 0x10e68), (0x11052, 0x1105a),
   (0x1f100, 0x1f10a)]

def decimal (c : Char) : Option Nat :=
  (decimalBlocks.find? fun b => b ≤ c.toNat ∧ c.toNat < b + 10).map (c.toNat - ·)

/-- `str.isdigit` -/
def isdigit (s : String) : Bool :=
  !s.toList.isEmpty && s.toList.all fun c =>
    (decimal c).isSome || otherDigits.any fun r => r.1 ≤ c.toNat ∧ c.toNat ≤ r.2

/-- `int` of a string of digits: a `ValueError` for one that is no decimal digit. -/
def pyInt (s : String) : Option Int :=
  s.toList.foldlM (fun n c => (decimal c).map fun d => 10 * n + (d : Int)) 0

/-- `m[k] = v` on a dictionary kept in insertion order. -/
def dictSet {κ β : Type} [DecidableEq κ] (k : κ) (v : β) : List (κ × β) → List (κ × β)
  | [] => [(k, v)]
  | (k', v') :: rest => if k = k' then (k, v) :: rest else (k', v') :: dictSet k v rest

/-- `dict(l)` -/
def dictOf {κ β : Type} [DecidableEq κ] (l : List (κ × β)) : List (κ × β) :=
  l.foldl (fun m e => dictSet e.1 e.2 m) []

-- ---------------------------------------------------------------------------
-- Links
-- ---------------------------------------------------------------------------

/-- `_is_linkup` -/
def isLinkup (prouter : PRouter) (ifindex : Int) : Bool :=
  match prouter.data.bind PRouterEntry.ifIndexOperStatusTable with
  | some table =>
    match table.filter fun x => x.ifIndex = ifindex with
    | x :: _ => x.ifOperStatus = 1
    | [] => false
  | none => false

/-- `_chk_lnk` -/
def chkLnk (pre : PRouterEntry) (index : Int) : Bool :=
  match pre.ifIndexOperStatusTable with
  | some table =>
    match table.find? fun d => d.ifIndex = index with
    | some d => d.ifOperStatus = 1
    | none => false
  | none => false

/-- `_add_link`: whether the link goes into the link table; the vrouter of a link to
one has to be known. -/
def addLink (inv : Inventory) (prouter : PRouter) (d : LinkEntry) : Option Bool := do
  if d.remote_system_name = "" ∨ d.remote_interface_name = "" then
    return false
  if d.type = .VRouter then
    let vrouter ← inv.vrouters.find? d.remote_system_name
    match vrouter.l2_if.bind (·.find? d.remote_interface_name) with
    | some l2_if =>
      if l2_if.remote_system_name ≠ prouter.name then
        return false
    | none => pure ()
  return isLinkup prouter d.local_interface_index

/-- The links `bms_links` tries to add, in turn; `none` is an exception. -/
def bmsAttempts (inv : Inventory) (prouter : PRouter) (ifm : List (Int × String)) :
    List (Option LinkEntry) :=
  (inv.logical_interfaces.filter fun lif => isSubstring prouter.name lif.fqname).flatMap fun lif =>
    lif.vmis.reduceOption.flatMap fun
      | none => [none]
      | some macs => macs.map fun mc => do
        let ifi ← ifm.find? fun e => isSubstring e.2 lif.fqname
        some {
          remote_system_name := String.intercalate "-" (["bms", "host"] ++ mc.splitOn ":")
          local_interface_name := lif.name
          remote_interface_name := "em0"
          local_interface_index := ifi.1
          remote_interface_index := 1
          type := .BMS }

/-- `bms_links`: the links before the first exception, which it catches. -/
def bmsLinks (inv : Inventory) (prouter : PRouter) (ifm : List (Int × String)) :
    List LinkEntry :=
  ((bmsAttempts inv prouter ifm).takeWhile Option.isSome).reduceOption.filter fun d =>
    addLink inv prouter d = some true

-- ---------------------------------------------------------------------------
-- compute: the LLDP neighbours
-- ---------------------------------------------------------------------------

/-- The index of the interface that the local port's `name` describes. -/
def portIndex (name : LldpLocPortEntry → String) (sys : LldpLocalSystemData)
    (ifm : List (Int × String)) (num : Int) : Option Int := do
  let port ← sys.lldpLocPortTable.find? fun x => x.lldpLocPortNum = num
  let e ← ifm.find? fun e => e.2 = name port
  some e.1

/-- `pl['lldpRemLocalPortNum']` after the translation of Cisco's and Arista's numbers. -/
def localPortNum (sys : LldpLocalSystemData) (ifm : List (Int × String))
    (pl : LldpRemoteSystemsData) : Option Int :=
  if startswith sys.lldpLocSysDesc "Cisco" then
    portIndex LldpLocPortEntry.lldpLocPortDesc sys ifm pl.lldpRemLocalPortNum
  else if startswith sys.lldpLocSysDesc "Arista" then
    portIndex LldpLocPortEntry.lldpLocPortId sys ifm pl.lldpRemLocalPortNum
  else some pl.lldpRemLocalPortNum

/-- `rii`. For a port id that is not a number the code looks the neighbour's port up with
`filter(..)[0]`, which raises on a filter object; the handler around it answers 0. -/
def remoteIfIndex (pl : LldpRemoteSystemsData) : Option Int :=
  if isdigit pl.lldpRemPortId then pyInt pl.lldpRemPortId else some 0

/-- The links so far and the interfaces that LLDP has found a neighbour on. -/
structure LldpLinks where
  links : List LinkEntry
  lldp_ints : List String

def lldpNeighbour (inv : Inventory) (prouter : PRouter) (pre : PRouterEntry)
    (sys : LldpLocalSystemData) (ifm : List (Int × String)) (st : LldpLinks)
    (pl : LldpRemoteSystemsData) : Option LldpLinks := do
  let num ← localPortNum sys ifm pl
  match ifm.lookup num with
  | none => return st
  | some ifname =>
    if !chkLnk pre num then
      return st
    let rii ← remoteIfIndex pl
    let d : LinkEntry := {
      remote_system_name := pl.lldpRemSysName
      local_interface_name := ifname
      remote_interface_name :=
        if startswith sys.lldpLocSysDesc "Arista" then pl.lldpRemPortId else pl.lldpRemPortDesc
      local_interface_index := num
      remote_interface_index := rii
      type := .PRouter }
    if ← addLink inv prouter d then
      return ⟨st.links ++ [d], st.lldp_ints ++ [ifname]⟩
    return st

-- ---------------------------------------------------------------------------
-- compute: the forwarding and ARP tables
-- ---------------------------------------------------------------------------

/-- The links so far and the router's own `vrouter_l2ifs`. -/
structure MacLinks where
  links : List LinkEntry
  vrouter_l2ifs : L2Table

def vrouterLink (vr_name ifname vr_ifname : String) (index : Int) : LinkEntry where
  remote_system_name := vr_name
  local_interface_name := ifname
  remote_interface_name := vr_ifname
  local_interface_index := index
  remote_interface_index := 1
  type := .VRouter

def fdbEntry (inv : Inventory) (prouter : PRouter) (ifm : List (Int × String))
    (dot1d2snmp : List (Int × Int)) (lldp_ints : List String) (st : MacLinks)
    (mac_entry : FdbPortTable) : Option MacLinks :=
  match inv.vrouter_macs.find? mac_entry.mac with
  | none => some st
  | some entry => do
    let vr_ifname ← entry.ifname
    let port := do
      let snmpport ← dot1d2snmp.lookup mac_entry.dot1dBasePortIfIndex
      let ifname ← ifm.lookup snmpport
      some (snmpport, ifname)
    match port with
    | none => return st
    | some (snmpport, ifname) =>
      if ifname ∈ lldp_ints then
        return st
      let d := vrouterLink entry.vrname ifname vr_ifname snmpport
      if ← addLink inv prouter d then
        let ifs := (st.vrouter_l2ifs.find? entry.vrname).getD .empty
        return ⟨st.links ++ [d], st.vrouter_l2ifs.assign entry.vrname
          (ifs.assign vr_ifname ⟨prouter.name, ifname⟩)⟩
      return st

/-- `del vrouter_l2ifs[vr][intf]`, and of `vr` when that was its last interface. -/
def dropIf (l2 : L2Table) (vr : String) (ifs : IfMap) (intf : String) : L2Table :=
  if (ifs.erase intf).isEmpty then l2.erase vr else l2.assign vr (ifs.erase intf)

/-- The remote end that the forwarding table gave an interface of a vrouter. -/
def l2If (l2 : L2Table) (vr intf : String) : Option (IfMap × RemoteIfInfo) := do
  let ifs ← l2.find? vr
  let remote ← ifs.find? intf
  some (ifs, remote)

def arpLink (inv : Inventory) (prouter : PRouter) (ifm : List (Int × String))
    (lldp_ints : List String) (st : MacLinks) (arp : ArpTable) (vr_name vr_ifname : String) :
    Option MacLinks := do
  let ifname ← ifm.lookup arp.localIfIndex
  if startswith ifname "vlan" || startswith ifname "irb" || ifname ∈ lldp_ints then
    return st
  let d := vrouterLink vr_name ifname vr_ifname arp.localIfIndex
  if ← addLink inv prouter d then
    return { st with links := st.links ++ [d] }
  return st

def arpEntry (inv : Inventory) (prouter : PRouter) (ifm : List (Int × String))
    (lldp_ints : List String) (st : MacLinks) (arp : ArpTable) : Option MacLinks :=
  match inv.vrouter_ips.find? arp.ip with
  | none => some st
  | some vr => do
    let vrouter ← inv.vrouters.find? vr
    let macs ← vrouter.phy_if.mapM PhyIf.mac_address
    if arp.mac ∉ macs then
      return st
    let entry ← inv.vrouter_macs.find? arp.mac
    let vr_ifname ← entry.ifname
    match l2If st.vrouter_l2ifs entry.vrname vr_ifname with
    | some (ifs, remote) =>
      if remote.remote_system_name = prouter.name then
        return { st with vrouter_l2ifs := dropIf st.vrouter_l2ifs entry.vrname ifs vr_ifname }
      arpLink inv prouter ifm lldp_ints st arp entry.vrname vr_ifname
    | none => arpLink inv prouter ifm lldp_ints st arp entry.vrname vr_ifname

-- ---------------------------------------------------------------------------
-- compute: the loop over the routers
-- ---------------------------------------------------------------------------

/-- `dict.update` -/
def update (m new : IfMap) : IfMap := new.entries.foldl (fun m e => m.assign e.1 e.2) m

def mergeL2 (table l2 : L2Table) : L2Table :=
  l2.entries.foldl (fun t e =>
    match t.find? e.1 with
    | some ifs => t.assign e.1 (update ifs e.2)
    | none => t.assign e.1 e.2) table

structure Computed where
  link : LinkTable
  vrouter_l2ifs : L2Table

/-- One router of `compute`'s loop; `none` is an exception out of it. -/
def computeProuter (inv : Inventory) (st : Computed) (prouter : PRouter) : Option Computed :=
  match prouter.data with
  | none => some st
  | some pre =>
    match pre.ifTable with
    | none => some st
    | some ifTable => do
      let ifm := dictOf (ifTable.map fun x => (x.ifIndex, x.ifDescr))
      let lldp ← pre.lldpTable
      let neighbours ← lldp.lldpRemoteSystemsData
      let lldpLinks ← neighbours.foldlM
        (lldpNeighbour inv prouter pre lldp.lldpLocalSystemData ifm)
        ⟨bmsLinks inv prouter ifm, []⟩
      let fdbLinks ← match pre.fdbPortIfIndexTable with
        | none => some ⟨lldpLinks.links, .empty⟩
        | some ports =>
          let dot1d2snmp := dictOf (ports.map fun x => (x.dot1dBasePortIfIndex, x.snmpIfIndex))
          (pre.fdbPortTable.getD []).foldlM
            (fdbEntry inv prouter ifm dot1d2snmp lldpLinks.lldp_ints)
            ⟨lldpLinks.links, .empty⟩
      let arpTable ← pre.arpTable
      let arpLinks ← arpTable.foldlM (arpEntry inv prouter ifm lldpLinks.lldp_ints) fdbLinks
      return ⟨st.link.assign prouter.name arpLinks.links,
        mergeL2 st.vrouter_l2ifs arpLinks.vrouter_l2ifs⟩

/-- The loop over the routers, and whether it ran to its end: a raise leaves what the
routers before it gave. -/
def computeLoop (inv : Inventory) : List PRouter → Computed → Computed × Bool
  | [], st => (st, true)
  | prouter :: rest, st =>
    match computeProuter inv st prouter with
    | none => (st, false)
    | some st' => computeLoop inv rest st'

structure Controller where
  link : LinkTable
  vrouter_l2ifs : L2Table
  old_vrouter_l2ifs : L2Table
  /-- the `VRouterL2IfUVE` records sent, in order -/
  sent : List VRouterL2IfInfo

def init : Controller := ⟨.empty, .empty, .empty, []⟩

/-- `compute`, and whether it returned. -/
def compute (inv : Inventory) (work_items : List PRouter) (c : Controller) : Controller × Bool :=
  let (st, ok) := computeLoop inv work_items ⟨.empty, .empty⟩
  ({ c with
     link := st.link
     old_vrouter_l2ifs := c.vrouter_l2ifs
     vrouter_l2ifs := st.vrouter_l2ifs }, ok)

-- ---------------------------------------------------------------------------
-- send_uve and the rounds
-- ---------------------------------------------------------------------------

def keys (m : L2Table) : List String := m.entries.map Prod.fst

def delVrs (c : Controller) : List String :=
  (keys c.old_vrouter_l2ifs).filter fun vr => vr ∉ keys c.vrouter_l2ifs

def addVrs (c : Controller) : List String :=
  (keys c.vrouter_l2ifs).filter fun vr => vr ∉ keys c.old_vrouter_l2ifs

/-- The vrouters in both tables whose interfaces differ. -/
def changedVrs (c : Controller) : List String :=
  (keys c.vrouter_l2ifs).filter fun vr =>
    vr ∈ keys c.old_vrouter_l2ifs ∧ c.vrouter_l2ifs.find? vr ≠ c.old_vrouter_l2ifs.find? vr

def deleteRecord (vr : String) : VRouterL2IfInfo := { name := vr, deleted := some true }

def infoRecord (table : L2Table) (vr : String) : VRouterL2IfInfo :=
  { name := vr, if_info := some ((table.find? vr).getD .empty) }

def send_uve (c : Controller) : Controller :=
  { c with sent := c.sent ++ (delVrs c).map deleteRecord ++
      (addVrs c).map (infoRecord c.vrouter_l2ifs) ++
      (changedVrs c).map (infoRecord c.vrouter_l2ifs) }

/-- A record at the collector. -/
def receive (shown : L2Table) (r : VRouterL2IfInfo) : L2Table :=
  if r.deleted = some true then shown.erase r.name
  else match r.if_info with
    | some ifs => shown.assign r.name ifs
    | none => shown

/-- The records last sent and not deleted. -/
def published (c : Controller) : L2Table := c.sent.foldl receive .empty

/-- What a turn of `_uve_scanner` has to work with. -/
structure Round where
  /-- `constnt_schdlr.schedule(..)` -/
  scheduled : Bool
  inventory : Inventory
  work_items : List PRouter

/-- One turn of `_uve_scanner`. -/
def scan (c : Controller) (r : Round) : Controller :=
  if r.scheduled then
    match compute r.inventory r.work_items c with
    | (c', true) => send_uve c'
    | (c', false) => c'
  else c

def run (rs : List Round) : Controller := rs.foldl scan init

/-- What `compute` builds in the round, up to a raise. -/
def Round.computed (r : Round) : Computed × Bool :=
  computeLoop r.inventory r.work_items ⟨.empty, .empty⟩

/-- `compute` and `send_uve` complete. -/
def Round.Completes (r : Round) : Prop := r.scheduled = true ∧ r.computed.2 = true

/-- `compute` raises. -/
def Round.Raises (r : Round) : Prop := r.scheduled = true ∧ r.computed.2 = false

/-- The records follow the computed table: after every round that completes they are it. -/
def Follows (rs : List Round) : Prop :=
  ∀ p r, p ++ [r] <+: rs → r.Completes →
    published (run (p ++ [r])) = (run (p ++ [r])).vrouter_l2ifs

/-- Each raise comes when the routers before it give what was last sent. -/
def RaisesKeep (rs : List Round) : Prop :=
  ∀ p r, p ++ [r] <+: rs → r.Raises → r.computed.1.vrouter_l2ifs = published (run p)

-- ---------------------------------------------------------------------------
-- One send_uve
-- ---------------------------------------------------------------------------

theorem mem_keys {m : L2Table} {vr : String} : vr ∈ keys m ↔ (m.find? vr).isSome = true := by
  rw [keys, List.mem_map, Option.isSome_iff_exists]
  constructor
  · rintro ⟨⟨k, ifs⟩, hmem, rfl⟩
    exact ⟨ifs, OrderedMap.mem_entries.mp hmem⟩
  · rintro ⟨ifs, hfind⟩
    exact ⟨(vr, ifs), OrderedMap.mem_entries.mpr hfind, rfl⟩

theorem find?_foldl_deleteRecord (vrs : List String) (shown : L2Table) (vr : String) :
    ((vrs.map deleteRecord).foldl receive shown).find? vr =
      if vr ∈ vrs then none else shown.find? vr := by
  induction vrs generalizing shown with
  | nil => simp
  | cons x vrs ih =>
    rw [List.map_cons, List.foldl_cons, ih]
    have hreceive : receive shown (deleteRecord x) = shown.erase x := rfl
    rw [hreceive, OrderedMap.find?_erase]
    by_cases hmem : vr ∈ vrs
    · rw [if_pos hmem, if_pos (List.mem_cons_of_mem x hmem)]
    · by_cases hx : vr = x
      · rw [if_neg hmem, if_pos hx, if_pos (hx ▸ List.mem_cons_self)]
      · rw [if_neg hmem, if_neg hx, if_neg (by simp [hx, hmem])]

theorem find?_foldl_infoRecord (table : L2Table) (vrs : List String) (shown : L2Table)
    (vr : String) :
    ((vrs.map (infoRecord table)).foldl receive shown).find? vr =
      if vr ∈ vrs then some ((table.find? vr).getD .empty) else shown.find? vr := by
  rw [List.foldl_map]
  exact OrderedMap.find?_foldl_assign (fun vr => (table.find? vr).getD .empty) vrs shown vr

/-- `send_uve` brings the vrouters up to date on which the two tables differ; the
others show what they showed. -/
theorem published_send_uve (c : Controller) (vr : String) :
    (published (send_uve c)).find? vr =
      if c.old_vrouter_l2ifs.find? vr = c.vrouter_l2ifs.find? vr then (published c).find? vr
      else c.vrouter_l2ifs.find? vr := by
  have hsent : published (send_uve c) =
      ((changedVrs c).map (infoRecord c.vrouter_l2ifs)).foldl receive
        (((addVrs c).map (infoRecord c.vrouter_l2ifs)).foldl receive
          (((delVrs c).map deleteRecord).foldl receive (published c))) := by
    unfold published send_uve
    rw [List.foldl_append, List.foldl_append, List.foldl_append]
  rw [hsent, find?_foldl_infoRecord, find?_foldl_infoRecord, find?_foldl_deleteRecord]
  simp only [changedVrs, addVrs, delVrs, List.mem_filter, mem_keys, decide_eq_true_eq]
  -- in neither table, in one of them, in both
  cases c.vrouter_l2ifs.find? vr with
  | none => cases c.old_vrouter_l2ifs.find? vr <;> simp
  | some new =>
    cases c.old_vrouter_l2ifs.find? vr with
    | none => simp
    | some old =>
      by_cases heq : old = new
      · simp [heq]
      · simp [heq, Ne.symm heq]

-- ---------------------------------------------------------------------------
-- One round
-- ---------------------------------------------------------------------------

/-- What was last sent is what the controller compares with next. -/
def Synced (c : Controller) : Prop := published c = c.vrouter_l2ifs

theorem scan_completes {r : Round} (h : r.Completes) (c : Controller) :
    scan c r = send_uve { c with
      link := r.computed.1.link
      old_vrouter_l2ifs := c.vrouter_l2ifs
      vrouter_l2ifs := r.computed.1.vrouter_l2ifs } := by
  have hok : (compute r.inventory r.work_items c).2 = true := h.2
  unfold scan
  rw [if_pos h.1]
  split
  · rename_i c' heq
    rw [← (Prod.mk.inj heq).1]
    rfl
  · rename_i c' heq
    rw [heq] at hok
    exact absurd hok (by simp)

theorem scan_raises {r : Round} (h : r.Raises) (c : Controller) :
    scan c r = { c with
      link := r.computed.1.link
      old_vrouter_l2ifs := c.vrouter_l2ifs
      vrouter_l2ifs := r.computed.1.vrouter_l2ifs } := by
  have hraise : (compute r.inventory r.work_items c).2 = false := h.2
  unfold scan
  rw [if_pos h.1]
  split
  · rename_i c' heq
    rw [heq] at hraise
    exact absurd hraise (by simp)
  · rename_i c' heq
    rw [← (Prod.mk.inj heq).1]
    rfl

/-- What a turn of the loop can be. -/
theorem Round.cases (r : Round) : r.Completes ∨ r.Raises ∨ r.scheduled = false := by
  unfold Round.Completes Round.Raises
  cases r.scheduled <;> cases r.computed.2 <;> simp

theorem scan_idle {r : Round} (h : r.scheduled = false) (c : Controller) : scan c r = c := by
  unfold scan
  rw [h]
  rfl

/-- A round that completes, on the vrouters whose entry it leaves as the round before did
and on the others. -/
theorem published_scan_completes {r : Round} (h : r.Completes) (c : Controller) (vr : String) :
    (published (scan c r)).find? vr =
      if c.vrouter_l2ifs.find? vr = r.computed.1.vrouter_l2ifs.find? vr
      then (published c).find? vr else r.computed.1.vrouter_l2ifs.find? vr := by
  rw [scan_completes h, published_send_uve]
  rfl

theorem table_scan_completes {r : Round} (h : r.Completes) (c : Controller) :
    (scan c r).vrouter_l2ifs = r.computed.1.vrouter_l2ifs := by
  rw [scan_completes h]
  rfl

/-- A completed round after a synced one leaves the records synced. -/
theorem synced_scan_completes {r : Round} (h : r.Completes) {c : Controller} (hc : Synced c) :
    Synced (scan c r) := by
  unfold Synced
  rw [table_scan_completes h]
  apply OrderedMap.ext_find
  intro vr
  rw [published_scan_completes h, hc]
  split
  · assumption
  · rfl

theorem synced_scan_raises {r : Round} (h : r.Raises) {c : Controller} :
    Synced (scan c r) ↔ r.computed.1.vrouter_l2ifs = published c := by
  rw [scan_raises h]
  exact eq_comm

-- ---------------------------------------------------------------------------
-- Runs
-- ---------------------------------------------------------------------------

theorem run_snoc (p : List Round) (r : Round) : run (p ++ [r]) = scan (run p) r := by
  unfold run
  rw [List.foldl_append]
  rfl

theorem RaisesKeep.of_isPrefix {p rs : List Round} (h : RaisesKeep rs) (hp : p <+: rs) :
    RaisesKeep p :=
  fun q r hq => h q r (hq.trans hp)

/-- Where every raise keeps what was sent, every round leaves the records synced. -/
theorem synced_run {rs : List Round} (h : RaisesKeep rs) : Synced (run rs) := by
  induction rs using List.reverseRecOn with
  | nil => rfl
  | append_singleton p r ih =>
    have hp : Synced (run p) := ih (h.of_isPrefix (List.prefix_append p [r]))
    rw [run_snoc]
    rcases r.cases with hr | hr | hr
    · exact synced_scan_completes hr hp
    · exact (synced_scan_raises hr).mpr (h p r (List.prefix_refl _) hr)
    · rw [scan_idle hr]
      exact hp

/-- The routers before the one that raises. -/
theorem computeLoop_raise {inv : Inventory} {items : List PRouter} {st : Computed}
    (h : (computeLoop inv items st).2 = false) :
    ∃ done, computeLoop inv done st = ((computeLoop inv items st).1, true) := by
  induction items generalizing st with
  | nil => exact absurd h (by simp [computeLoop])
  | cons prouter rest ih =>
    rw [computeLoop] at h ⊢
    cases hone : computeProuter inv st prouter with
    | none => exact ⟨[], rfl⟩
    | some st' =>
      rw [hone] at h
      obtain ⟨done, hdone⟩ := ih h
      refine ⟨prouter :: done, ?_⟩
      rw [computeLoop, hone]
      exact hdone

/-- After a raise the same routers without the ones from the raise on complete, and
their table is the one just left: nothing is sent. -/
theorem exists_silent_round {r : Round} (h : r.Raises) (c : Controller) :
    ∃ r' : Round, r'.Completes ∧
      (scan (scan c r) r').vrouter_l2ifs = r.computed.1.vrouter_l2ifs ∧
      published (scan (scan c r) r') = published c := by
  obtain ⟨done, hdone⟩ := computeLoop_raise h.2
  let r' : Round := ⟨true, r.inventory, done⟩
  have hcomputed : r'.computed = (r.computed.1, true) := hdone
  have hr' : r'.Completes := ⟨rfl, by rw [hcomputed]⟩
  have htable : r'.computed.1.vrouter_l2ifs = r.computed.1.vrouter_l2ifs := by rw [hcomputed]
  refine ⟨r', hr', by rw [table_scan_completes hr', htable], ?_⟩
  apply OrderedMap.ext_find
  intro vr
  rw [published_scan_completes hr', htable, scan_raises h, if_pos rfl]
  rfl

/-- The records follow the computed table along a run, and along every run that leaves it
by one round, exactly when each raise comes at a table equal to what was last sent. -/
theorem published_follows_iff (rs : List Round) :
    (Follows rs ∧ ∀ p r, p <+: rs → Follows (p ++ [r])) ↔ RaisesKeep rs := by
  constructor
  · rintro ⟨-, hnext⟩ p r hpr hr
    obtain ⟨r', hr', htable, hsame⟩ := exists_silent_round hr (run p)
    have hfollow := hnext (p ++ [r]) r' hpr (p ++ [r]) r' (List.prefix_refl _) hr'
    rw [run_snoc, run_snoc, htable, hsame] at hfollow
    exact hfollow.symm
  · intro hkeep
    have hafter : ∀ p r, p <+: rs → r.Completes → Synced (run (p ++ [r])) := by
      intro p r hp hr
      rw [run_snoc]
      exact synced_scan_completes hr (synced_run (hkeep.of_isPrefix hp))
    have hfollows : Follows rs := fun p r hpr hr =>
      hafter p r ((List.prefix_append p [r]).trans hpr) hr
    refine ⟨hfollows, ?_⟩
    intro p r hp q r' hq hr'
    rcases List.prefix_concat_iff.mp hq with heq | hq
    · obtain ⟨rfl, hrr⟩ := List.append_inj' heq rfl
      exact hafter q r' hp hr'
    · exact hfollows q r' (hq.trans hp) hr'

/-- A vrouter with one interface, as the API describes it. -/
def vr1 (l2_if : Option IfMap) : VrouterData :=
  ⟨"vr1", some ["10.0.0.1"], some [⟨some "eth0", some "00:11:22:33:44:55"⟩], l2_if⟩

def vr1L2If : IfMap := OrderedMap.empty.assign "eth0" ⟨"p1", "ge-0/0/1"⟩

/-- A router with one port that is up. -/
def p1 (fdb : List FdbPortTable) (arp : Option (List ArpTable)) : PRouter where
  name := "p1"
  data := some {
    lldpTable := some ⟨⟨"Juniper Networks", []⟩, some []⟩
    arpTable := arp
    ifTable := some [⟨514, "ge-0/0/1"⟩]
    fdbPortTable := some fdb
    fdbPortIfIndexTable := some [⟨7, 514⟩]
    ifIndexOperStatusTable := some [⟨514, 1⟩] }

/-- The router sees the vrouter's MAC address; then its entry comes without `arpTable`;
then the MAC address has aged out. -/
def lostDeletion : List Round :=
  [⟨true, get_vrouters [] [vr1 none], [p1 [⟨"00:11:22:33:44:55", 7⟩] (some [])]⟩,
   ⟨true, get_vrouters [] [vr1 (some vr1L2If)], [p1 [⟨"00:11:22:33:44:55", 7⟩] none]⟩,
   ⟨true, get_vrouters [] [vr1 (some vr1L2If)], [p1 [] (some [])]⟩]

/-- The vrouter is in no computed table any more, and its record stays. -/
theorem lostDeletion_not_follows :
    (run lostDeletion).vrouter_l2ifs = .empty ∧
      (published (run lostDeletion)).find? "vr1" = some vr1L2If ∧ ¬ Follows lostDeletion := by
  have htable : (run lostDeletion).vrouter_l2ifs = .empty := by decide
  have hshown : (published (run lostDeletion)).find? "vr1" = some vr1L2If := by decide
  refine ⟨htable, hshown, ?_⟩
  intro hfollows
  have heq : published (run lostDeletion) = (run lostDeletion).vrouter_l2ifs :=
    hfollows (lostDeletion.take 2) ⟨true, get_vrouters [] [vr1 (some vr1L2If)], [p1 [] (some [])]⟩
      (List.prefix_refl _) ⟨rfl, by decide⟩
  rw [heq, htable] at hshown
  exact absurd hshown (by simp)

end TfAnalytics.Topology
