import TfAnalytics.Lib.Transition
import TfAnalytics.OpServer.UveServer
import TfAnalytics.OpServer.UveStreamPart

/-!
# Alarm generator — the UVE keys of a partition

`UveStreamProc` (partition_handler.py) keeps, for each collector, the UVEs of its
partition. When a collector appears, their names are read from its Redis instance
(`handle_resource_check`, `get_part`) and given to `start_partition`; afterwards the
notifications on the Kafka topic keep them up to date (`msg_handler`). `disc_rset` has
the instances that are synced, and only an instance outside it is read.

A read that fails gives no UVEs, and the instance is synced all the same.

* `complete_readContent_iff`: which reads are complete;
* `synced_complete`: when all reads of a run are, the instances in `disc_rset` have been
  read completely;
* `resource_check_complete_iff`: and one check keeps this only if its reads are;
* `resource_check_keeps`: an instance in `disc_rset` is not read again.
-/

namespace TfAnalytics.OpServer

open TfAnalytics.Lib
open TfAnalytics.Collector

-- ---------------------------------------------------------------------------
-- The instances
-- ---------------------------------------------------------------------------

structure RedisInfo where
  ip : String
  port : Nat
  pid : String
deriving DecidableEq

/-- The collector's name: `ip:port`. -/
def RedisInfo.coll (r_inst : RedisInfo) : String := r_inst.ip ++ ":" ++ toString r_inst.port

/-- An instance as a read finds it: its database, and whether its handle is set and
answers. -/
structure RedisRead where
  redish : Redis
  answers : Bool

/-- The server at the time of a check. An instance can be gone from the map when it is
read. -/
structure ServerView where
  _redis_uve_map : List RedisInst
  nodup : (_redis_uve_map.map fun rinst => (rinst.ip, rinst.port)).Nodup
  read : RedisInfo → Option RedisRead

/-- The instances with a handle whose collector is known; a collector id of fewer than
four parts raises an `IndexError`. -/
def redis_instances : List RedisInst → Option (List RedisInfo)
  | [] => some []
  | rinst :: rest =>
    match rinst.redis_handle, rinst.collector_pid with
    | some _, some collector_pid => do
      let cpid ← (collector_pid.toList.splitOn ':')[3]?
      let ril ← redis_instances rest
      return ⟨rinst.ip, rinst.port, String.ofList cpid⟩ :: ril
    | _, _ => redis_instances rest

/-- When the instance is gone, `gen_uves` is returned before it is set. -/
def ServerView.get_part (us : ServerView) (part : Nat) (r_inst : RedisInfo) :
    Option (String × GenUves) :=
  (us.read r_inst).map fun found =>
    OpServer.get_part (toString part)
      { ip := r_inst.ip
        port := r_inst.port
        redis_handle := if found.answers then some found.redish else none
        collector_pid := some r_inst.pid }

structure ResourceCheck where
  disc_instances : List RedisInfo
  coll_delete : List String
  chg_res : OrderedMap String GenUves

def handle_resource_check (us : ServerView) (part : Nat) (current_inst : List RedisInfo) :
    Option ResourceCheck := do
  let disc_instances ← redis_instances us._redis_uve_map
  let r_added := disc_instances.filter (· ∉ current_inst)
  let r_deleted := current_inst.filter (· ∉ disc_instances)
  let chg_res ← r_added.foldlM (fun chg_res r_inst =>
    (us.get_part part r_inst).map fun res => chg_res.assign res.1 res.2) .empty
  return ⟨disc_instances, (r_deleted.map RedisInfo.coll).dedup, chg_res⟩

-- ---------------------------------------------------------------------------
-- The UVEs of the collectors
-- ---------------------------------------------------------------------------

/-- `["c"]` by table, key and struct type. -/
abbrev GenDb := OrderedMap String (OrderedMap String (OrderedMap String Nat))

abbrev CollDb := OrderedMap String GenDb

/-- The contents reported for keys: `None`, or one struct type and its value. -/
abbrev Chg (V : Type) := List (String × Option (String × Option V))

structure UveStreamProc where
  _uvedb : OrderedMap String CollDb
  _uvein : OrderedMap String (OrderedMap String (OrderedMap String (OrderedMap String Nat)))
  disc_rset : List RedisInfo
  _up : Bool
  _partoffset : Nat

namespace UveStreamProc

def empty : UveStreamProc := ⟨.empty, .empty, [], true, 0⟩

/-- The types by generator and key, as `stop_partition` returns them. -/
def partdb (gens : CollDb) : List (String × List (String × List String)) :=
  gens.entries.map fun gen => (gen.1, gen.2.entries.flatMap fun tab =>
    tab.2.entries.map fun rkey => (tab.1 ++ ":" ++ rkey.1, rkey.2.entries.map Prod.fst))

/-- `stop_partition()`: no callback. -/
def stop_all (s : UveStreamProc) :
    UveStreamProc × List (String × List (String × List (String × List String))) :=
  ({ s with _uvedb := .empty, disc_rset := [], _up := false },
    s._uvedb.entries.map fun coll => (coll.1, partdb coll.2))

/-- `stop_partition(kcoll)`, with what is called back; an unknown collector raises a
`KeyError`. -/
def stop_partition {V : Type} (s : UveStreamProc) (kcoll : String) :
    Option (UveStreamProc × Chg V) := do
  let gens ← s._uvedb.find? kcoll
  let keys := (partdb gens).flatMap fun gen => gen.2.map Prod.fst
  return ({ s with _uvedb := s._uvedb.erase kcoll }, keys.dedup.map fun uk => (uk, none))

/-- A key without a `:` raises an `IndexError`. -/
def loadKey (db : GenDb) (kk : String) (types : OrderedMap String Unit) : Option GenDb :=
  (splitKey kk).map fun tabl =>
    let rkeys := (db.find? tabl.1).getD .empty
    db.assign tabl.1 (rkeys.assign tabl.2 (types.entries.foldl (fun m typ => m.assign typ.1 0) .empty))

def loadColl (coll : GenUves) : Option CollDb :=
  coll.entries.foldlM (fun gens gen =>
    (gen.2.entries.foldlM (fun db kk => loadKey db kk.1 kk.2) .empty).map (gens.assign gen.1)) .empty

def start_partition {V : Type} (s : UveStreamProc) (cbdb : OrderedMap String GenUves) :
    Option (UveStreamProc × Chg V) := do
  let _uvedb ← cbdb.entries.foldlM (fun db coll => (loadColl coll.2).map (db.assign coll.1)) s._uvedb
  let keys := cbdb.entries.flatMap fun coll => coll.2.entries.flatMap fun gen =>
    gen.2.entries.map Prod.fst
  return ({ s with _uvedb, _up := true }, keys.dedup.map fun uk => (uk, none))

/-- What is called back, one after the other. -/
def stopColls {V : Type} (s : UveStreamProc) : List String → Option (UveStreamProc × List (Chg V))
  | [] => some (s, [])
  | coll :: coll_delete => do
    let stopped ← s.stop_partition coll
    let rest ← stopped.1.stopColls coll_delete
    return (rest.1, stopped.2 :: rest.2)

def startAdded {V : Type} (s : UveStreamProc) (chg_res : OrderedMap String GenUves) :
    Option (UveStreamProc × List (Chg V)) :=
  if chg_res.isEmpty then some (s, [])
  else (s.start_partition chg_res).map fun started => (started.1, [started.2])

def resource_check {V : Type} (s : UveStreamProc) (partno : Nat) (us : ServerView) :
    Option (UveStreamProc × List (Chg V)) := do
  let newset ← handle_resource_check us partno s.disc_rset
  let stopped ← s.stopColls newset.coll_delete
  let started ← stopped.1.startAdded newset.chg_res
  return ({ started.1 with disc_rset := newset.disc_instances }, stopped.2 ++ started.2)

end UveStreamProc

-- ---------------------------------------------------------------------------
-- The notifications
-- ---------------------------------------------------------------------------

/-- A Kafka message. -/
structure Message where
  offset : Nat
  key : String
  value : Option String

structure Params where
  key : String
  type : String
  gen : String
  coll : String
deriving DecidableEq

/-- `om.key.split("|")`; fewer than four parts raise an `IndexError`. -/
def decodeKey (key : String) : Option Params := do
  let params := (key.toList.splitOn '|').map String.ofList
  let gen ← params[2]?
  let coll ← params[3]?
  return ⟨← params[0]?, ← params[1]?, gen, coll⟩

inductive Handled (V : Type) where
  /-- An exception; the partition handler stops. -/
  | failed
  /-- The collector is not synced. -/
  | ignored
  | done (chg : Chg V)

section Handler

-- `json.loads`: an exception, `null`, or a value.
variable {V : Type} (loads : String → Option (Option V))

def decodeValue : Option String → Option (Option V)
  | none => some none
  | some text => if text = "" then some none else loads text

namespace UveStreamProc

/-- The types of a key after a message; a key without types goes. -/
def storeType (rkeys : OrderedMap String (OrderedMap String Nat)) (rkey type : String)
    (removed : Bool) : OrderedMap String (OrderedMap String Nat) :=
  let types := (rkeys.find? rkey).getD .empty
  if removed then
    if (types.erase type).isEmpty then rkeys.erase rkey else rkeys.assign rkey (types.erase type)
  else
    rkeys.assign rkey (types.assign type ((types.find? type).getD 0 + 1))

/-- One more notification for a table, collector, generator and type. -/
def countIn (s : UveStreamProc) (tab : String) (uv : Params) : UveStreamProc :=
  let colls := (s._uvein.find? tab).getD .empty
  let gens := (colls.find? uv.coll).getD .empty
  let types := (gens.find? uv.gen).getD .empty
  { s with _uvein := s._uvein.assign tab (colls.assign uv.coll (gens.assign uv.gen
      (types.assign uv.type ((types.find? uv.type).getD 0 + 1)))) }

def msg_handler_single (s : UveStreamProc) (om : Message) : UveStreamProc × Handled V :=
  let s := { s with _partoffset := om.offset }
  match decodeKey om.key, decodeValue loads om.value with
  | some uv, some value =>
    match s._uvedb.find? uv.coll with
    | none => (s, .ignored)
    | some gens =>
      let tabs := (gens.find? uv.gen).getD .empty
      match splitKey uv.key with
      | none => ({ s with _uvedb := s._uvedb.assign uv.coll (gens.assign uv.gen tabs) }, .failed)
      | some (tab, rkey) =>
        let rkeys := storeType ((tabs.find? tab).getD .empty) rkey uv.type value.isNone
        let s := { s with
          _uvedb := s._uvedb.assign uv.coll (gens.assign uv.gen (tabs.assign tab rkeys)) }
        (s.countIn tab uv, .done [(uv.key, some (uv.type, value))])
  | _, _ => (s, .failed)

/-- The messages up to the first that fails, with what is called back and whether all
went through. -/
def msg_handler (s : UveStreamProc) : List Message → UveStreamProc × List (Chg V) × Bool
  | [] => (s, [], true)
  | mm :: mlist =>
    match s.msg_handler_single loads mm with
    | (s, .failed) => (s, [], false)
    | (s, .ignored) => s.msg_handler mlist
    | (s, .done chg) =>
      let rest := s.msg_handler mlist
      (rest.1, chg :: rest.2.1, rest.2.2)

end UveStreamProc

end Handler

-- ---------------------------------------------------------------------------
-- The greenlet
-- ---------------------------------------------------------------------------

/-- What `PART2KEY` holds for the partition when the instance is read. -/
def RedisRead.content (found : RedisRead) (part : Nat) : List String :=
  found.redish.smembers (redisKey .PART2KEY (toString part))

/-- A read of an instance: what there was, and what `start_partition` was given. -/
structure Load where
  r_inst : RedisInfo
  content : List String
  passed : GenUves

/-- All of the content was passed on. -/
def Load.Complete (l : Load) : Prop :=
  ∀ elems ∈ l.content, ∃ gen typ key,
    splitPart elems = some (gen, typ, key) ∧ HasStruct l.passed gen key typ

/-- The reads of a check, as `start_partition` gets them. -/
def ServerView.loads (us : ServerView) (part : Nat) (newset : ResourceCheck)
    (current_inst : List RedisInfo) : List Load :=
  (newset.disc_instances.filter (· ∉ current_inst)).filterMap fun r_inst =>
    (us.read r_inst).map fun found =>
      ⟨r_inst, found.content part, (newset.chg_res.find? r_inst.coll).getD .empty⟩

/-- `loaded` has the reads of the instances since each was last lost. -/
structure PartRun where
  proc : UveStreamProc
  loaded : List Load
  ended : Bool

/-- What can happen in `_run`. -/
inductive PartEvent where
  | resource_check (us : ServerView)
  | msg_handler (mlist : List Message)
  /-- An exception of the Kafka client. -/
  | exception
  | kill

section Run

variable {V : Type} (loads : String → Option (Option V)) (partno : Nat)

namespace PartRun

def stop (s : PartRun) (ended : Bool) : PartRun := ⟨s.proc.stop_all.1, [], ended⟩

/-- A check that raises an exception stops the partition; a message that is not handled
ends the greenlet. -/
def step (s : PartRun) (e : PartEvent) : Option PartRun :=
  if s.ended then none
  else
    match e with
    | .resource_check us =>
      match handle_resource_check us partno s.proc.disc_rset,
          s.proc.resource_check (V := V) partno us with
      | some newset, some (proc, _) =>
        some ⟨proc, (s.loaded.filter fun l => l.r_inst ∈ newset.disc_instances) ++
          us.loads partno newset s.proc.disc_rset, false⟩
      | _, _ => some (s.stop false)
    | .msg_handler mlist =>
      let handled := s.proc.msg_handler loads mlist
      if handled.2.2 then some { s with proc := handled.1 }
      else some ({ s with proc := handled.1 }.stop true)
    | .exception => some (s.stop false)
    | .kill => some (s.stop true)

/-- Every synced instance has been read completely. -/
def SyncedComplete (s : PartRun) : Prop :=
  ∀ r_inst ∈ s.proc.disc_rset, ∃ l ∈ s.loaded, l.r_inst = r_inst ∧ l.Complete

end PartRun

def partSystem : System PartRun PartEvent := ⟨⟨.empty, [], false⟩, PartRun.step loads partno⟩

/-- The read answers and every entry has its six parts, or there is nothing to read. -/
def RedisRead.Succeeds (found : RedisRead) (part : Nat) : Prop :=
  found.content part = [] ∨
    (found.answers = true ∧ ∀ elems ∈ found.content part, 5 ≤ elems.toList.count ':')

/-- The instances that the check adds are read completely. -/
def ReadsSucceed (s : PartRun) : PartEvent → Prop
  | .resource_check us => ∀ ril, redis_instances us._redis_uve_map = some ril →
      ∀ r_inst ∈ ril, r_inst ∉ s.proc.disc_rset → ∀ found, us.read r_inst = some found →
        found.Succeeds partno
  | _ => True

end Run

-- ---------------------------------------------------------------------------
-- One read
-- ---------------------------------------------------------------------------

theorem coll_inj {r r' : RedisInfo} (h : r.coll = r'.coll) : r.ip = r'.ip ∧ r.port = r'.port := by
  have hdigits : ∀ n : Nat, ∀ f ∈ [(toString n).toList], ':' ∉ f := by
    intro n f hf hmem
    obtain rfl := List.mem_singleton.mp hf
    have hdigit := Nat.isDigit_of_mem_toDigits (by decide) (by decide)
      (show ':' ∈ Nat.toDigits 10 n by simpa using hmem)
    exact absurd hdigit (by decide)
  have hlist : joinAfter ':' r.ip.toList [(toString r.port).toList] =
      joinAfter ':' r'.ip.toList [(toString r'.port).toList] := by
    have := congrArg String.toList h
    simpa [RedisInfo.coll, joinAfter] using this
  obtain ⟨hip, hport⟩ := joinAfter_inj (hdigits r.port) (hdigits r'.port) rfl hlist
  have htext : Nat.toDigits 10 r.port = Nat.toDigits 10 r'.port := by
    simpa using List.head_eq_of_cons_eq hport
  have hnumber := congrArg (fun l => Nat.ofDigitChars 10 l 0) htext
  exact ⟨String.toList_inj.mp hip, by simpa using hnumber⟩

/-- What a read passes on is complete exactly when it succeeds. -/
theorem complete_readContent_iff (us : ServerView) (part : Nat) {r_inst : RedisInfo}
    {found : RedisRead} (hread : us.read r_inst = some found) {res : String × GenUves}
    (hres : us.get_part part r_inst = some res) :
    (Load.mk r_inst (found.content part) res.2).Complete ↔ found.Succeeds part := by
  rw [ServerView.get_part, hread, Option.map_some] at hres
  obtain rfl := Option.some.inj hres
  cases hanswers : found.answers with
  | false =>
    -- Nothing is passed on.
    simp only [Load.Complete, RedisRead.Succeeds, hanswers, get_part, Bool.false_eq_true,
      if_false, false_and, or_false]
    constructor
    · intro hcomplete
      refine List.eq_nil_iff_forall_not_mem.mpr fun elems helems => ?_
      obtain ⟨gen, typ, key, -, hhas⟩ := hcomplete elems helems
      simp [HasStruct, typesOf] at hhas
    · intro hnil elems helems
      rw [hnil] at helems
      cases helems
  | true =>
    simp only [Load.Complete, RedisRead.Succeeds, hanswers, get_part, if_true, true_and]
    change (∀ elems ∈ found.content part, ∃ gen typ key, splitPart elems = some (gen, typ, key) ∧
      HasStruct (readPart (found.content part) .empty) gen key typ) ↔ _
    constructor
    · intro hcomplete
      refine Or.inr fun elems helems => (splitPart_isSome_iff elems).mp ?_
      obtain ⟨gen, typ, key, hsplit, -⟩ := hcomplete elems helems
      rw [hsplit]
      rfl
    · rintro (hnil | hcount) elems helems
      · rw [hnil] at helems
        cases helems
      · have hsplits : ∀ e ∈ found.content part, (splitPart e).isSome = true :=
          fun e he => (splitPart_isSome_iff e).mpr (hcount e he)
        obtain ⟨⟨gen, typ, key⟩, hsplit⟩ := Option.isSome_iff_exists.mp (hsplits elems helems)
        refine ⟨gen, typ, key, hsplit, ?_⟩
        rw [hasStruct_readPart_of_split _ _ _ _ _ hsplits]
        exact Or.inr ⟨elems, helems, hsplit⟩

-- ---------------------------------------------------------------------------
-- One check
-- ---------------------------------------------------------------------------

theorem redis_instances_sublist {map : List RedisInst} {ril : List RedisInfo}
    (h : redis_instances map = some ril) :
    List.Sublist (ril.map fun r => (r.ip, r.port)) (map.map fun rinst => (rinst.ip, rinst.port)) := by
  induction map generalizing ril with
  | nil =>
    obtain rfl := Option.some.inj h
    exact List.Sublist.slnil
  | cons rinst rest ih =>
    rw [redis_instances] at h
    split at h
    · simp only [Option.bind_eq_bind, Option.bind_eq_some_iff] at h
      obtain ⟨cpid, -, ril', hrest, hril⟩ := h
      obtain rfl := Option.some.inj hril
      exact (ih hrest).cons_cons _
    · exact (ih h).cons _

/-- A collector is reported once. -/
theorem ServerView.nodup_coll (us : ServerView) {ril : List RedisInfo}
    (h : redis_instances us._redis_uve_map = some ril) : (ril.map RedisInfo.coll).Nodup := by
  have hpairs := us.nodup.sublist (redis_instances_sublist h)
  rw [List.Nodup, List.pairwise_map] at hpairs ⊢
  refine hpairs.imp fun hne hcoll => hne ?_
  obtain ⟨hip, hport⟩ := coll_inj hcoll
  rw [hip, hport]

theorem ServerView.get_part_coll {us : ServerView} {part : Nat} {r_inst : RedisInfo}
    {res : String × GenUves} (h : us.get_part part r_inst = some res) : res.1 = r_inst.coll := by
  obtain ⟨found, -, rfl⟩ := Option.map_eq_some_iff.mp h
  rfl

section Added

variable {us : ServerView} {part : Nat}

/-- Each instance that is read has its own entry. -/
theorem foldlM_get_part {r_added : List RedisInfo} (hnodup : (r_added.map RedisInfo.coll).Nodup) :
    ∀ {chg_res chg_res' : OrderedMap String GenUves},
      r_added.foldlM (fun chg_res r_inst =>
        (us.get_part part r_inst).map fun res => chg_res.assign res.1 res.2) chg_res = some chg_res' →
      (∀ coll, coll ∉ r_added.map RedisInfo.coll → chg_res'.find? coll = chg_res.find? coll) ∧
      ∀ r_inst ∈ r_added, ∃ res, us.get_part part r_inst = some res ∧
        chg_res'.find? r_inst.coll = some res.2 := by
  induction r_added with
  | nil =>
    intro chg_res chg_res' h
    obtain rfl := Option.some.inj h
    exact ⟨fun _ _ => rfl, by simp⟩
  | cons r rest ih =>
    intro chg_res chg_res' h
    rw [List.map_cons, List.nodup_cons] at hnodup
    rw [List.foldlM_cons] at h
    obtain ⟨m, hm, hrest⟩ := Option.bind_eq_some_iff.mp h
    obtain ⟨res, hres, rfl⟩ := Option.map_eq_some_iff.mp hm
    obtain ⟨hframe, hread⟩ := ih hnodup.2 hrest
    rw [ServerView.get_part_coll hres] at hframe
    constructor
    · intro coll hcoll
      rw [List.map_cons, List.mem_cons, not_or] at hcoll
      rw [hframe coll hcoll.2, OrderedMap.find?_assign, if_neg hcoll.1]
    · intro r' hr'
      rcases List.mem_cons.mp hr' with rfl | hr'
      · refine ⟨res, hres, ?_⟩
        rw [hframe _ hnodup.1, OrderedMap.find?_assign, if_pos rfl]
      · exact hread r' hr'

variable {current_inst : List RedisInfo} {newset : ResourceCheck}

theorem handle_resource_check_eq (h : handle_resource_check us part current_inst = some newset) :
    redis_instances us._redis_uve_map = some newset.disc_instances ∧
    ∀ r_inst ∈ newset.disc_instances, r_inst ∉ current_inst →
      ∃ found res, us.read r_inst = some found ∧ us.get_part part r_inst = some res ∧
        newset.chg_res.find? r_inst.coll = some res.2 := by
  simp only [handle_resource_check, Option.bind_eq_bind, Option.bind_eq_some_iff] at h
  obtain ⟨ril, hril, chg_res, hadded, hnew⟩ := h
  obtain rfl := Option.some.inj hnew
  refine ⟨hril, fun r_inst hr hnot => ?_⟩
  have hnodup : ((ril.filter (· ∉ current_inst)).map RedisInfo.coll).Nodup :=
    (us.nodup_coll hril).sublist (List.filter_sublist.map _)
  have hmem : r_inst ∈ ril.filter (· ∉ current_inst) := by simpa using ⟨hr, hnot⟩
  obtain ⟨res, hres, hfind⟩ := (foldlM_get_part hnodup hadded).2 r_inst hmem
  obtain ⟨found, hread, -⟩ := Option.map_eq_some_iff.mp hres
  exact ⟨found, res, hread, hres, hfind⟩

/-- The reads of a check: one for each instance added. -/
theorem mem_loads (h : handle_resource_check us part current_inst = some newset) (l : Load) :
    l ∈ us.loads part newset current_inst ↔ ∃ r_inst ∈ newset.disc_instances,
      r_inst ∉ current_inst ∧ ∃ found res, us.read r_inst = some found ∧
        us.get_part part r_inst = some res ∧ l = ⟨r_inst, found.content part, res.2⟩ := by
  obtain ⟨-, hadded⟩ := handle_resource_check_eq h
  rw [ServerView.loads, List.mem_filterMap]
  constructor
  · rintro ⟨r_inst, hmem, hl⟩
    obtain ⟨hr, hnot⟩ : r_inst ∈ newset.disc_instances ∧ r_inst ∉ current_inst := by
      simpa using hmem
    obtain ⟨found, res, hread, hres, hfind⟩ := hadded r_inst hr hnot
    rw [hread, hfind] at hl
    exact ⟨r_inst, hr, hnot, found, res, hread, hres, (Option.some.inj hl).symm⟩
  · rintro ⟨r_inst, hr, hnot, found, res, hread, hres, rfl⟩
    obtain ⟨found', res', hread', hres', hfind⟩ := hadded r_inst hr hnot
    obtain rfl := Option.some.inj (hres.symm.trans hres')
    refine ⟨r_inst, by simpa using ⟨hr, hnot⟩, ?_⟩
    rw [hread, hfind]
    rfl

end Added

section Run

variable {V : Type} {loads : String → Option (Option V)} {partno : Nat}

theorem resource_check_disc_rset {s proc : UveStreamProc} {us : ServerView}
    {newset : ResourceCheck} {calls : List (Chg V)}
    (hnew : handle_resource_check us partno s.disc_rset = some newset)
    (h : s.resource_check partno us = some (proc, calls)) :
    proc.disc_rset = newset.disc_instances := by
  simp only [UveStreamProc.resource_check, hnew, Option.bind_eq_bind, Option.bind_some,
    Option.bind_eq_some_iff] at h
  obtain ⟨stopped, -, started, -, hproc⟩ := h
  obtain ⟨rfl, -⟩ := Prod.mk.inj (Option.some.inj hproc)
  rfl

variable (loads) in
theorem msg_handler_single_disc_rset (s : UveStreamProc) (om : Message) :
    (s.msg_handler_single loads om).1.disc_rset = s.disc_rset := by
  unfold UveStreamProc.msg_handler_single
  dsimp only
  split
  · split
    · rfl
    · split <;> rfl
  · rfl

theorem msg_handler_disc_rset (mlist : List Message) :
    ∀ s : UveStreamProc, (s.msg_handler loads mlist).1.disc_rset = s.disc_rset := by
  induction mlist with
  | nil =>
    intro s
    rfl
  | cons om mlist ih =>
    intro s
    have hone := msg_handler_single_disc_rset loads s om
    rw [UveStreamProc.msg_handler]
    split
    · rename_i hsingle
      rw [hsingle] at hone
      exact hone
    · rename_i hsingle
      rw [hsingle] at hone
      exact (ih _).trans hone
    · rename_i hsingle
      rw [hsingle] at hone
      exact (ih _).trans hone

-- ---------------------------------------------------------------------------
-- Runs
-- ---------------------------------------------------------------------------

/-- What a check that raises no exception leads to. -/
theorem step_resource_check {s : PartRun} (hrun : s.ended = false) {us : ServerView}
    {newset : ResourceCheck} (hnew : handle_resource_check us partno s.proc.disc_rset = some newset)
    {proc : UveStreamProc} {calls : List (Chg V)}
    (hcheck : s.proc.resource_check partno us = some (proc, calls)) :
    s.step loads partno (.resource_check us) = some ⟨proc,
      (s.loaded.filter fun l => l.r_inst ∈ newset.disc_instances) ++
        us.loads partno newset s.proc.disc_rset, false⟩ := by
  rw [PartRun.step, hrun, if_neg Bool.false_ne_true]
  simp only [hnew, hcheck]

/-- A step is a check that raises no exception, keeps what is synced and read, or
stops the partition. -/
theorem step_cases {s s' : PartRun} {e : PartEvent} (h : s.step loads partno e = some s') :
    (∃ us newset, e = .resource_check us ∧
      handle_resource_check us partno s.proc.disc_rset = some newset ∧
      s'.proc.disc_rset = newset.disc_instances ∧
      s'.loaded = (s.loaded.filter fun l => l.r_inst ∈ newset.disc_instances) ++
        us.loads partno newset s.proc.disc_rset) ∨
    (s'.proc.disc_rset = s.proc.disc_rset ∧ s'.loaded = s.loaded) ∨
    (s'.proc.disc_rset = [] ∧ s'.loaded = []) := by
  unfold PartRun.step at h
  split at h
  · cases h
  · cases e with
    | resource_check us =>
      simp only at h
      split at h
      · rename_i newset proc calls hnew hcheck
        obtain rfl := Option.some.inj h
        exact Or.inl ⟨us, newset, rfl, hnew, resource_check_disc_rset hnew hcheck, rfl⟩
      · obtain rfl := Option.some.inj h
        exact Or.inr (Or.inr ⟨rfl, rfl⟩)
    | msg_handler mlist =>
      simp only at h
      split at h
      · obtain rfl := Option.some.inj h
        exact Or.inr (Or.inl ⟨msg_handler_disc_rset mlist s.proc, rfl⟩)
      · obtain rfl := Option.some.inj h
        exact Or.inr (Or.inr ⟨rfl, rfl⟩)
    | exception =>
      obtain rfl := Option.some.inj h
      exact Or.inr (Or.inr ⟨rfl, rfl⟩)
    | kill =>
      obtain rfl := Option.some.inj h
      exact Or.inr (Or.inr ⟨rfl, rfl⟩)

theorem syncedComplete_step {s s' : PartRun} {e : PartEvent} (hs : s.SyncedComplete)
    (hok : ReadsSucceed partno s e) (h : s.step loads partno e = some s') : s'.SyncedComplete := by
  rcases step_cases h with ⟨us, newset, rfl, hnew, hset, hloaded⟩ | ⟨hset, hloaded⟩ | ⟨hset, -⟩
  · intro r_inst hr
    rw [hset] at hr
    rw [hloaded]
    by_cases hold : r_inst ∈ s.proc.disc_rset
    · obtain ⟨l, hl, rfl, hcomplete⟩ := hs r_inst hold
      have hkept : l ∈ s.loaded.filter fun l => l.r_inst ∈ newset.disc_instances :=
        List.mem_filter.mpr ⟨hl, decide_eq_true hr⟩
      exact ⟨l, List.mem_append_left _ hkept, rfl, hcomplete⟩
    · obtain ⟨hril, hadded⟩ := handle_resource_check_eq hnew
      obtain ⟨found, res, hread, hres, -⟩ := hadded r_inst hr hold
      have hsucceeds := hok _ hril r_inst hr hold found hread
      refine ⟨⟨r_inst, found.content partno, res.2⟩, List.mem_append_right _ ?_, rfl,
        (complete_readContent_iff us partno hread hres).mpr hsucceeds⟩
      exact (mem_loads hnew _).mpr ⟨r_inst, hr, hold, found, res, hread, hres, rfl⟩
  · intro r_inst hr
    rw [hset] at hr
    rw [hloaded]
    exact hs r_inst hr
  · intro r_inst hr
    rw [hset] at hr
    cases hr

/-- When every read of a run succeeds, the synced instances have been read completely. -/
theorem synced_complete {s : PartRun}
    (h : (partSystem loads partno).ReachableVia (ReadsSucceed partno) s) : s.SyncedComplete := by
  refine h.invariant (fun r_inst hr => ?_) fun _ _ _ hs hok hstep => syncedComplete_step hs hok hstep
  cases hr

/-- Only reads of synced instances are kept. -/
theorem loaded_synced {s : PartRun} (h : (partSystem loads partno).Reachable s) :
    ∀ l ∈ s.loaded, l.r_inst ∈ s.proc.disc_rset := by
  refine h.invariant (P := fun s => ∀ l ∈ s.loaded, l.r_inst ∈ s.proc.disc_rset)
    (fun l hl => ?_) fun s e s' hs hstep => ?_
  · cases hl
  · rcases step_cases hstep with ⟨us, newset, rfl, hnew, hset, hloaded⟩ | ⟨hset, hloaded⟩ |
      ⟨-, hloaded⟩
    · intro l hl
      rw [hset]
      rw [hloaded, List.mem_append] at hl
      rcases hl with hl | hl
      · exact of_decide_eq_true (List.mem_filter.mp hl).2
      · obtain ⟨r_inst, hr, -, -, -, -, -, rfl⟩ := (mem_loads hnew l).mp hl
        exact hr
    · rw [hset, hloaded]
      exact hs
    · rw [hloaded]
      intro l hl
      cases hl

/-- After a check the synced instances have been read completely only if its reads
succeeded. -/
theorem resource_check_complete_iff {s s' : PartRun} (hreach : (partSystem loads partno).Reachable s)
    (hs : s.SyncedComplete) {us : ServerView} {proc : UveStreamProc} {calls : List (Chg V)}
    (hcheck : s.proc.resource_check partno us = some (proc, calls))
    (hstep : s.step loads partno (.resource_check us) = some s') :
    s'.SyncedComplete ↔ ReadsSucceed partno s (.resource_check us) := by
  refine ⟨fun hs' ril hril r_inst hr hold found hread => ?_,
    fun hok => syncedComplete_step hs hok hstep⟩
  obtain ⟨newset, hnew, -⟩ := Option.bind_eq_some_iff.mp hcheck
  have hrun : s.ended = false := by
    cases hended : s.ended with
    | false => rfl
    | true => simp [PartRun.step, hended] at hstep
  obtain rfl := Option.some.inj ((step_resource_check hrun hnew hcheck).symm.trans hstep)
  obtain ⟨hril', -⟩ := handle_resource_check_eq hnew
  obtain rfl := Option.some.inj (hril.symm.trans hril')
  obtain ⟨l, hl, rfl, hcomplete⟩ := hs' r_inst
    ((resource_check_disc_rset hnew hcheck).symm ▸ hr)
  rcases List.mem_append.mp hl with hl | hl
  · exact absurd (loaded_synced hreach l (List.mem_filter.mp hl).1) hold
  · obtain ⟨r_inst, -, -, found', res, hread', hres, rfl⟩ := (mem_loads hnew l).mp hl
    obtain rfl := Option.some.inj (hread.symm.trans hread')
    exact (complete_readContent_iff us partno hread hres).mp hcomplete

/-- An instance that is synced is not read again. -/
theorem resource_check_keeps {us : ServerView} {current_inst : List RedisInfo}
    {newset : ResourceCheck} (h : handle_resource_check us partno current_inst = some newset)
    {r_inst : RedisInfo} (hr : r_inst ∈ newset.disc_instances) (hold : r_inst ∈ current_inst) :
    newset.chg_res.find? r_inst.coll = none := by
  simp only [handle_resource_check, Option.bind_eq_bind, Option.bind_eq_some_iff] at h
  obtain ⟨ril, hril, chg_res, hadded, hnew⟩ := h
  obtain rfl := Option.some.inj hnew
  have hall := us.nodup_coll hril
  have hnodup : ((ril.filter (· ∉ current_inst)).map RedisInfo.coll).Nodup :=
    hall.sublist (List.filter_sublist.map _)
  refine ((foldlM_get_part hnodup hadded).1 r_inst.coll fun hmem => ?_).trans rfl
  obtain ⟨r', hr', hcoll⟩ := List.mem_map.mp hmem
  obtain ⟨hmem', hnot⟩ : r' ∈ ril ∧ r' ∉ current_inst := by simpa using hr'
  obtain rfl := List.inj_on_of_nodup_map hall hmem' hr hcoll
  exact hnot hold

end Run

section Sample

/-- A Redis instance with one entry of partition 0. -/
def samplePartDb : Redis := Redis.empty.sadd "PART2KEY:0" "h:Compute:vrouter:0:UveVirtualNetwork:vn:a"

def sampleView (answers : Bool) : ServerView where
  _redis_uve_map := [⟨"10.0.0.1", 6379, some samplePartDb, some "h:Analytics:contrail-collector:7"⟩]
  nodup := by decide
  read _ := some ⟨samplePartDb, answers⟩

abbrev sampleProcSystem : System PartRun PartEvent :=
  partSystem (V := Unit) (fun _ => none) 0

theorem synced_complete_sample :
    ∃ s, sampleProcSystem.run [.resource_check (sampleView true)] = some s ∧
      s.proc.disc_rset ≠ [] ∧ s.SyncedComplete := by
  obtain ⟨s, hrun, hset⟩ : ∃ s, sampleProcSystem.run [.resource_check (sampleView true)] = some s ∧
      s.proc.disc_rset ≠ [] := ⟨_, rfl, List.cons_ne_nil _ _⟩
  refine ⟨s, hrun, hset, synced_complete (System.reachableVia_of_run hrun ?_)⟩
  intro e he _ _ _
  obtain rfl := List.mem_singleton.mp he
  intro ril _ r_inst _ _ found hread
  obtain rfl := Option.some.inj hread
  exact Or.inr ⟨rfl, by decide⟩

/-- A read that fails leaves the instance synced with nothing read. -/
theorem not_syncedComplete : ¬ ∀ s, sampleProcSystem.Reachable s → s.SyncedComplete := by
  intro hall
  have hinit : sampleProcSystem.init.SyncedComplete := fun _ hr => by cases hr
  obtain ⟨s, hstep⟩ : ∃ s, sampleProcSystem.step sampleProcSystem.init
      (.resource_check (sampleView false)) = some s := ⟨_, rfl⟩
  obtain ⟨⟨proc, calls⟩, hcheck⟩ : ∃ checked, sampleProcSystem.init.proc.resource_check (V := Unit) 0
      (sampleView false) = some checked := ⟨_, rfl⟩
  have hreads := (resource_check_complete_iff .init hinit hcheck hstep).mp
    (hall s (.step .init hstep))
  have hfails := hreads _ rfl _ List.mem_cons_self List.not_mem_nil _ rfl
  exact hfails.elim (by decide) fun hanswers => Bool.false_ne_true hanswers.1

end Sample

end TfAnalytics.OpServer
