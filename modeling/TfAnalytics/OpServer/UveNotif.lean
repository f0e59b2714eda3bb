import TfAnalytics.Collector.StatTable
import TfAnalytics.OpServer.UveStreamProc

/-!
# Notifications of UVE changes

The collector tells the alarm generator about a changed UVE by a Kafka message whose key
is put together in `OpServerProxy::UVENotif` (OpServerProxy.cc) and taken apart again in
`msg_handler_single` (partition_handler.py). Nothing is escaped: the texts come back when
none of them contains the separator or a NUL, where `c_str()` ends the key.

The partition is computed twice, for the notification and in `OpServerProxy::UVEUpdate`
for the database. A `std::string` is a text here, and its bytes are the UTF-8 encoding.

* `decodeKey_notif_iff`: when the key is decoded into what it was built from;
* `uveUpdate_part` / `uveUpdate_alarm`: what an update records;
* `notif_agrees_iff`: both together;
* `msg_handler_single_notif`: what the alarm generator does with such a message.
-/

namespace TfAnalytics.OpServer

open TfAnalytics.Lib
open TfAnalytics.Collector

-- ---------------------------------------------------------------------------
-- Partitions
-- ---------------------------------------------------------------------------

inductive PartType where
  | PART_TYPE_CNODES
  | PART_TYPE_PNODES
  | PART_TYPE_VMS
  | PART_TYPE_IFS
  | PART_TYPE_OTHER
deriving DecidableEq

def PART_TYPES : List (String × PartType) := [
  ("ObjectCollectorInfo", .PART_TYPE_CNODES),
  ("ObjectAnalyticsAlarmInfo", .PART_TYPE_CNODES),
  ("ObjectAnalyticsSNMPInfo", .PART_TYPE_CNODES),
  ("ObjectDatabaseInfo", .PART_TYPE_CNODES),
  ("ObjectConfigDatabaseInfo", .PART_TYPE_CNODES),
  ("ObjectBgpRouter", .PART_TYPE_CNODES),
  ("ObjectConfigNode", .PART_TYPE_CNODES),
  ("ObjectDns", .PART_TYPE_CNODES),
  ("ObjectKubernetesManagerNode", .PART_TYPE_CNODES),
  ("ObjectServerTable", .PART_TYPE_PNODES),
  ("ObjectPRouter", .PART_TYPE_PNODES),
  ("ObjectVRouter", .PART_TYPE_PNODES),
  ("ObjectVMTable", .PART_TYPE_VMS),
  ("ObjectVMITable", .PART_TYPE_IFS),
  ("ObjectPhysicalInterfaceTable", .PART_TYPE_IFS),
  ("ObjectLogicalInterfaceTable", .PART_TYPE_IFS)]

def kPartCountCnodes : Nat := 1
def kPartMinTotalCount : Nat := 15

/-- `VizCollector::PartitionRange`: the first partition of a kind of table, and how many
it has. -/
def PartitionRange (ptype : PartType) (partitions : Nat) : Nat × Nat :=
  if partitions < kPartMinTotalCount then (0, partitions)
  else
    let pnodeparts := partitions / 15 + 1
    let varparts := (partitions - kPartCountCnodes - pnodeparts) / 3
    match ptype with
    | .PART_TYPE_CNODES => (0, kPartCountCnodes)
    | .PART_TYPE_PNODES => (kPartCountCnodes, pnodeparts)
    | .PART_TYPE_VMS => (kPartCountCnodes + pnodeparts, varparts)
    | .PART_TYPE_IFS => (kPartCountCnodes + pnodeparts + varparts, varparts)
    | .PART_TYPE_OTHER =>
      let bpart := kPartCountCnodes + pnodeparts + 2 * varparts
      (bpart, partitions - bpart)

/-- The bytes of a `std::string`. -/
def bytes (s : String) : Text := s.toUTF8.toList.map fun b => Char.ofNat b.toNat

-- ---------------------------------------------------------------------------
-- OpServerProxy
-- ---------------------------------------------------------------------------

structure OpServerProxy where
  partitions : Nat
  self_ip : String
  redis_port : Nat

/-- A struct of a UVE, as a generator sends it. -/
structure UveStruct where
  type : String
  source : String
  node_type : String
  module : String
  instance_id : String
  table : String
  barekey : String

namespace UveStruct

def key (u : UveStruct) : String := u.table ++ ":" ++ u.barekey

def genstr (u : UveStruct) : String :=
  u.source ++ ":" ++ u.node_type ++ ":" ++ u.module ++ ":" ++ u.instance_id

end UveStruct

/-- `s.c_str()`, as a text again: it ends at the first NUL. -/
def c_str (s : String) : String := String.ofList (s.toList.takeWhile (· ≠ '\x00'))

structure KafkaMessage where
  pt : Nat
  skey : String
  value : String

namespace OpServerProxy

def collstr (p : OpServerProxy) : String := p.self_ip ++ ":" ++ toString p.redis_port

/-- `json` writes the attributes and the time `__T`; only those of alarms are sent. -/
def UVENotif (p : OpServerProxy) (json : List (String × String) → Nat → String) (u : UveStruct)
    (value : List (String × String)) (deleted : Bool) (timestamp : Nat) : KafkaMessage :=
  let key := u.table ++ ":" ++ u.barekey
  let ptype := (PART_TYPES.lookup u.table).getD .PART_TYPE_OTHER
  let partdesc := PartitionRange ptype p.partitions
  let pt := partdesc.1 + djb_hash (bytes key) % partdesc.2
  let genstr := u.source ++ ":" ++ u.node_type ++ ":" ++ u.module ++ ":" ++ u.instance_id
  let kstr := key ++ "|" ++ u.type ++ "|" ++ genstr ++ "|" ++ p.collstr
  if deleted then ⟨pt, c_str kstr, ""⟩
  else ⟨pt, c_str kstr, json (if u.type = "UVEAlarms" then value else []) timestamp⟩

/-- The call of uveupdate.lua, on a connected database. -/
def UVEUpdate (p : OpServerProxy) (db : Redis) (u : UveStruct) (attr message ngen_inst : String)
    (seq : Int) (ts : Nat) (is_alarm : Bool) : Redis × Bool :=
  let key := u.table ++ ":" ++ u.barekey
  let pt :=
    if is_alarm then 0
    else
      let ptype := (PART_TYPES.lookup u.table).getD .PART_TYPE_OTHER
      let partdesc := PartitionRange ptype p.partitions
      partdesc.1 + djb_hash (bytes key) % partdesc.2
  let sm := u.source ++ ":" ++ u.node_type ++ ":" ++ u.module ++ ":" ++ u.instance_id
  uveupdate db
    { _types := redisKey .TYPES sm
      _origins := redisKey (originsKind is_alarm) key
      _table := redisKey (tableKind is_alarm) (tableOf key)
      _uves := redisKey .UVES (sm ++ ":" ++ u.type)
      _values := redisKey .VALUES (key ++ ":" ++ sm ++ ":" ++ u.type) }
    sm (u.source ++ ":" ++ u.node_type ++ ":" ++ u.module ++ ":" ++ ngen_inst) u.type attr key seq
    message (toString pt) is_alarm (timestampText ts)

end OpServerProxy

/-- The partition the database has for a struct. -/
def recordedPart (db : Redis) (u : UveStruct) : Option String :=
  db.hget (redisKey .KEY2PART (u.genstr ++ ":" ++ u.type)) u.key

/-- The generator is registered under the instance `ngen_inst`. -/
def Registered (db : Redis) (u : UveStruct) (ngen_inst : String) : Prop :=
  db.sismember (redisKey .NGENERATORS "")
    (u.source ++ ":" ++ u.node_type ++ ":" ++ u.module ++ ":" ++ ngen_inst) = true

/-- The key of the notification is decoded into what it was built from, and the partition
is the one that any update of the struct records; an update of an alarm records none. -/
structure NotifAgrees (p : OpServerProxy) (u : UveStruct) : Prop where
  decoded : ∀ json value deleted timestamp,
    decodeKey (p.UVENotif json u value deleted timestamp).skey =
      some ⟨u.key, u.type, u.genstr, p.collstr⟩
  part : ∀ json value deleted timestamp db attr message ngen_inst seq ts,
    Registered db u ngen_inst →
      recordedPart (p.UVEUpdate db u attr message ngen_inst seq ts false).1 u =
        some (toString (p.UVENotif json u value deleted timestamp).pt)
  alarm : ∀ db attr message ngen_inst seq ts,
    recordedPart (p.UVEUpdate db u attr message ngen_inst seq ts true).1 u = recordedPart db u

/-- No separator and no NUL. -/
def Plain (s : String) : Prop := '|' ∉ s.toList ∧ '\x00' ∉ s.toList

/-- All the texts of the notification are plain. -/
def PlainTexts (p : OpServerProxy) (u : UveStruct) : Prop :=
  ∀ s ∈ [u.table, u.barekey, u.type, u.source, u.node_type, u.module, u.instance_id, p.self_ip],
    Plain s

-- ---------------------------------------------------------------------------
-- The key
-- ---------------------------------------------------------------------------

theorem decodeKey_eq_some {skey : String} {uv : Params} (h : decodeKey skey = some uv) :
    ∃ rest, skey.toList.splitOn '|' =
      uv.key.toList :: uv.type.toList :: uv.gen.toList :: uv.coll.toList :: rest := by
  unfold decodeKey at h
  generalize skey.toList.splitOn '|' = params at h
  simp only [List.getElem?_map, Option.bind_eq_bind, Option.bind_eq_some_iff,
    Option.map_eq_some_iff] at h
  obtain ⟨-, ⟨gen, hgen, rfl⟩, -, ⟨coll, hcoll, rfl⟩, -, ⟨key, hkey, rfl⟩, -, ⟨type, htype, rfl⟩,
    huv⟩ := h
  obtain rfl := Option.some.inj huv
  match params with
  | key' :: type' :: gen' :: coll' :: rest =>
    obtain rfl := Option.some.inj hkey
    obtain rfl := Option.some.inj htype
    obtain rfl := Option.some.inj hgen
    obtain rfl := Option.some.inj hcoll
    exact ⟨rest, by simp⟩

theorem decodeKey_of_splitOn {skey : String} {uv : Params} {rest : List (List Char)}
    (h : skey.toList.splitOn '|' =
      uv.key.toList :: uv.type.toList :: uv.gen.toList :: uv.coll.toList :: rest) :
    decodeKey skey = some uv := by
  unfold decodeKey
  rw [h]
  simp

/-- The texts of a message key, joined by the separator. -/
theorem kstr_toList (uv : Params) :
    (uv.key ++ "|" ++ uv.type ++ "|" ++ uv.gen ++ "|" ++ uv.coll).toList =
      List.intercalate ['|'] [uv.key.toList, uv.type.toList, uv.gen.toList, uv.coll.toList] := by
  simp

/-- Four texts come back exactly when they are plain. -/
theorem decodeKey_c_str_iff (uv : Params) :
    decodeKey (c_str (uv.key ++ "|" ++ uv.type ++ "|" ++ uv.gen ++ "|" ++ uv.coll)) = some uv ↔
      ∀ s ∈ [uv.key, uv.type, uv.gen, uv.coll], Plain s := by
  have htext : (c_str (uv.key ++ "|" ++ uv.type ++ "|" ++ uv.gen ++ "|" ++ uv.coll)).toList =
      (List.intercalate ['|'] [uv.key.toList, uv.type.toList, uv.gen.toList,
        uv.coll.toList]).takeWhile (· ≠ '\x00') := by
    rw [c_str, String.toList_ofList, kstr_toList]
  constructor
  · intro hdecode
    obtain ⟨rest, hsplit⟩ := decodeKey_eq_some hdecode
    rw [htext] at hsplit
    have hfree := hsplit ▸ not_mem_of_mem_splitOn (d := '|')
    have hjoin := congrArg (List.intercalate ['|']) hsplit
    rw [List.intercalate_splitOn] at hjoin
    -- The text that is cut off at a NUL is at least as long as the whole.
    have hwhole : (List.intercalate ['|'] [uv.key.toList, uv.type.toList, uv.gen.toList,
        uv.coll.toList]).takeWhile (· ≠ '\x00') = List.intercalate ['|'] [uv.key.toList,
          uv.type.toList, uv.gen.toList, uv.coll.toList] := by
      refine (List.takeWhile_prefix _).eq_of_length_le ?_
      rw [hjoin]
      cases rest with
      | nil => exact le_rfl
      | cons r rest =>
        simp only [List.intercalate_cons_cons, List.intercalate_singleton, List.length_append]
        omega
    have hnul : ∀ c ∈ List.intercalate ['|'] [uv.key.toList, uv.type.toList, uv.gen.toList,
        uv.coll.toList], c ≠ '\x00' := by
      intro c hc
      rw [← hwhole] at hc
      simpa using List.mem_takeWhile_imp hc
    intro s hs
    have hmem : s.toList ∈ [uv.key.toList, uv.type.toList, uv.gen.toList, uv.coll.toList] :=
      List.mem_map_of_mem hs
    refine ⟨hfree _ (List.mem_append_left rest hmem), fun hzero => ?_⟩
    exact hnul _ ((infix_intercalate_of_mem hmem ['|']).subset hzero) rfl
  · intro hplain
    have hparts : ∀ part ∈ [uv.key.toList, uv.type.toList, uv.gen.toList, uv.coll.toList],
        '|' ∉ part ∧ '\x00' ∉ part := by
      intro part hpart
      obtain ⟨s, hs, rfl⟩ : ∃ s ∈ [uv.key, uv.type, uv.gen, uv.coll], s.toList = part :=
        List.mem_map.mp hpart
      exact hplain s hs
    have hnul : ∀ c ∈ List.intercalate ['|'] [uv.key.toList, uv.type.toList, uv.gen.toList,
        uv.coll.toList], decide (c ≠ '\x00') = true := by
      simp only [List.forall_mem_cons] at hparts
      obtain ⟨⟨-, hkey⟩, ⟨-, htype⟩, ⟨-, hgen⟩, ⟨-, hcoll⟩, -⟩ := hparts
      intro c hc
      refine decide_eq_true fun hzero => ?_
      subst hzero
      simp [hkey, htype, hgen, hcoll] at hc
    have hsplit : (c_str (uv.key ++ "|" ++ uv.type ++ "|" ++ uv.gen ++ "|" ++
        uv.coll)).toList.splitOn '|' =
          [uv.key.toList, uv.type.toList, uv.gen.toList, uv.coll.toList] := by
      rw [htext, List.takeWhile_eq_self_iff.mpr hnul]
      exact List.splitOn_intercalate '|' (fun part hpart => (hparts part hpart).1) (by simp)
    exact decodeKey_of_splitOn hsplit

-- ---------------------------------------------------------------------------
-- The notification
-- ---------------------------------------------------------------------------

theorem plain_append {s t : String} : Plain (s ++ t) ↔ Plain s ∧ Plain t := by
  unfold Plain
  rw [String.toList_append, List.mem_append, List.mem_append]
  tauto

theorem plain_colon : Plain ":" := ⟨by decide, by decide⟩

theorem plain_number (n : Nat) : Plain (toString n) := by
  have hdigit : ∀ c ∈ (toString n).toList, c.isDigit = true := by
    intro c hc
    exact Nat.isDigit_of_mem_toDigits (by decide) (by decide)
      (show c ∈ Nat.toDigits 10 n by simpa using hc)
  exact ⟨fun hmem => absurd (hdigit _ hmem) (by decide),
    fun hmem => absurd (hdigit _ hmem) (by decide)⟩

variable (p : OpServerProxy) (json : List (String × String) → Nat → String) (u : UveStruct)
  (value : List (String × String)) (deleted : Bool) (timestamp : Nat)

theorem UVENotif_skey : (p.UVENotif json u value deleted timestamp).skey =
    c_str (u.key ++ "|" ++ u.type ++ "|" ++ u.genstr ++ "|" ++ p.collstr) := by
  unfold OpServerProxy.UVENotif
  cases deleted <;> rfl

theorem plainTexts_iff : PlainTexts p u ↔ ∀ s ∈ [u.key, u.type, u.genstr, p.collstr], Plain s := by
  simp only [PlainTexts, List.forall_mem_cons, UveStruct.key, UveStruct.genstr,
    OpServerProxy.collstr, plain_append, plain_colon, plain_number, and_true]
  tauto

/-- The key is decoded into what it was built from exactly when its texts are plain. -/
theorem decodeKey_notif_iff : decodeKey (p.UVENotif json u value deleted timestamp).skey =
    some ⟨u.key, u.type, u.genstr, p.collstr⟩ ↔ PlainTexts p u := by
  rw [UVENotif_skey, plainTexts_iff]
  exact decodeKey_c_str_iff ⟨u.key, u.type, u.genstr, p.collstr⟩

/-- The attributes are stored under another name than the partition. -/
theorem hget_hset_values (db : Redis) (values attr message typ key : String) :
    (db.hset (redisKey .VALUES values) attr message).hget (redisKey .KEY2PART typ) key =
      db.hget (redisKey .KEY2PART typ) key := by
  rw [Redis.hget_hset, if_neg]
  rintro ⟨hname, -⟩
  cases (redisKey_inj.mp hname).1

/-- An update records the partition of the notification. -/
theorem uveUpdate_part (db : Redis) (attr message ngen_inst : String) (seq : Int) (ts : Nat)
    (hreg : Registered db u ngen_inst) :
    recordedPart (p.UVEUpdate db u attr message ngen_inst seq ts false).1 u =
      some (toString (p.UVENotif json u value deleted timestamp).pt) := by
  have hpt : (p.UVENotif json u value deleted timestamp).pt =
      (p.UVENotif json u value true timestamp).pt := by
    unfold OpServerProxy.UVENotif
    cases deleted <;> rfl
  rw [hpt, OpServerProxy.UVEUpdate, uveupdate, if_neg (by rw [hreg]; exact Bool.noConfusion)]
  simp only [recordedPart, hget_hset_values, Redis.zadd_hget, Redis.sadd_hget]
  exact (Redis.hget_hset ..).trans (if_pos ⟨rfl, rfl⟩)

/-- The update of an alarm records none. -/
theorem uveUpdate_alarm (db : Redis) (attr message ngen_inst : String) (seq : Int) (ts : Nat) :
    recordedPart (p.UVEUpdate db u attr message ngen_inst seq ts true).1 u = recordedPart db u := by
  rw [OpServerProxy.UVEUpdate, uveupdate]
  by_cases hreg : Registered db u ngen_inst
  · rw [if_neg (by rw [hreg]; exact Bool.noConfusion)]
    simp only [recordedPart, hget_hset_values, Redis.zadd_hget, Redis.sadd_hget, if_true]
  · rw [if_pos (Bool.eq_false_iff.mpr hreg)]

/-- Encoder and decoder agree exactly when all texts are plain. -/
theorem notif_agrees_iff : NotifAgrees p u ↔ PlainTexts p u := by
  constructor
  · intro h
    exact (decodeKey_notif_iff p (fun _ _ => "") u [] true 0).mp (h.decoded _ _ _ _)
  · intro hplain
    exact
      { decoded := fun json value deleted timestamp =>
          (decodeKey_notif_iff p json u value deleted timestamp).mpr hplain
        part := fun json value deleted timestamp db attr message ngen_inst seq ts hreg =>
          uveUpdate_part p json u value deleted timestamp db attr message ngen_inst seq ts hreg
        alarm := uveUpdate_alarm p u }

/-- A virtual network with the separator in its name. -/
def pipedNetwork : UveStruct where
  type := "UveVirtualNetworkAgent"
  source := "h"
  node_type := "Compute"
  module := "vrouter"
  instance_id := "0"
  table := "ObjectVNTable"
  barekey := "a|b"

theorem not_notifAgrees : ¬ ∀ p u, NotifAgrees p u := by
  intro hall
  have hplain := (notif_agrees_iff ⟨15, "10.0.0.1", 6379⟩ pipedNetwork).mp (hall _ _)
  exact (hplain "a|b" (by decide)).1 (by decide)

-- ---------------------------------------------------------------------------
-- The receiver
-- ---------------------------------------------------------------------------

section Receiver

variable {V : Type} {loads : String → Option (Option V)}

/-- A notification with plain texts whose value can be read is reported under its key and type,
if its collector is synced. -/
theorem msg_handler_single_notif (hplain : PlainTexts p u) (s : UveStreamProc)
    (hcoll : (s._uvedb.find? p.collstr).isSome = true) {offset : Nat} {text : Option String}
    {content : Option V} (hvalue : decodeValue loads text = some content) :
    (s.msg_handler_single loads
      ⟨offset, (p.UVENotif json u value deleted timestamp).skey, text⟩).2 =
        .done [(u.key, some (u.type, content))] := by
  obtain ⟨gens, hgens⟩ := Option.isSome_iff_exists.mp hcoll
  have hkey : (splitKey u.key).isSome = true := by
    rw [splitKey, Option.isSome_map, Option.isSome_iff_ne_none, Ne, splitFirst_eq_none_iff]
    simp [UveStruct.key]
  obtain ⟨⟨tab, rkey⟩, hsplit⟩ := Option.isSome_iff_exists.mp hkey
  simp only [UveStreamProc.msg_handler_single,
    (decodeKey_notif_iff p json u value deleted timestamp).mpr hplain, hvalue, hgens, hsplit]

end Receiver

end TfAnalytics.OpServer
