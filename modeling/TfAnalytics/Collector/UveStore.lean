import TfAnalytics.Lib.Delimited
import TfAnalytics.Lib.Redis
import Mathlib.Data.Set.Basic

/-!
# Collector — the UVE database

The collector keeps the UVEs of its generators in Redis, through the Lua scripts
uveupdate.lua, uvedelete.lua, delrequest.lua and seqnum.lua, which
`RedisProcessorExec` (redis_processor_vizd.cc) calls. Every struct of a UVE is
entered in a hash of its own and in five indexes, all under names put together
from the generator, the struct type and the key of the UVE.

Above it stands what the database is for: the set of live structs (`Store`). The
scripts change it as `Store.step` says, and every index holds exactly the live
structs, in its own encoding (`Represents`).

* `represents_update` / `represents_delete` / `represents_delrequest`: one
  script;
* `represents_run`: any sequence of scripts and expiries;
* `index_coherence`: what the indexes have in common in every reachable state.
-/

namespace TfAnalytics.Collector

open TfAnalytics.Lib

-- ---------------------------------------------------------------------------
-- Generators, types and keys
-- ---------------------------------------------------------------------------

structure Generator where
  source : String
  node_type : String
  module : String
  instance_id : String
  colonFree : ∀ s ∈ [source, node_type, module, instance_id], ':' ∉ s.toList

structure StructType where
  name : String
  colonFree : ':' ∉ name.toList

/-- The key of a UVE: its callers (OpServerProxy.cc, ruleeng.cc) build it as
table:barekey. -/
structure UveKey where
  text : String
  hasColon : ':' ∈ text.toList

/-- One struct of a UVE, as one generator sent it. -/
structure Uve where
  gen : Generator
  typ : StructType
  key : UveKey

/-- The text of an attribute: an XML element. -/
structure AttrValue where
  text : String
  isXml : text.toList.head? = some '<'

@[ext] theorem StructType.ext {t u : StructType} (h : t.name = u.name) : t = u := by
  cases t
  cases u
  cases h
  rfl

@[ext] theorem UveKey.ext {k l : UveKey} (h : k.text = l.text) : k = l := by
  cases k
  cases l
  cases h
  rfl

-- ---------------------------------------------------------------------------
-- Names
-- ---------------------------------------------------------------------------

/-- The kinds of names in the database. -/
inductive KeyKind where
  | TYPES
  | ORIGINS
  | ALARM_ORIGINS
  | TABLE
  | ALARM_TABLE
  | UVES
  | VALUES
  | PART2KEY
  | KEY2PART
  | NGENERATORS
deriving DecidableEq

def KeyKind.text : KeyKind → String
  | .TYPES => "TYPES:"
  | .ORIGINS => "ORIGINS:"
  | .ALARM_ORIGINS => "ALARM_ORIGINS:"
  | .TABLE => "TABLE:"
  | .ALARM_TABLE => "ALARM_TABLE:"
  | .UVES => "UVES:"
  | .VALUES => "VALUES:"
  | .PART2KEY => "PART2KEY:"
  | .KEY2PART => "KEY2PART:"
  | .NGENERATORS => "NGENERATORS"

def redisKey (kind : KeyKind) (s : String) : String := kind.text ++ s

/-- The generator in a name: `source:node_type:module:instance_id`. -/
def Generator.sm (g : Generator) : String :=
  g.source ++ ":" ++ g.node_type ++ ":" ++ g.module ++ ":" ++ g.instance_id

/-- The generator as NGENERATORS has it; the collector itself is registered
with its process id in the place of the instance. -/
def Generator.ngen_sm (g : Generator) (ngen_inst : String) : String :=
  g.source ++ ":" ++ g.node_type ++ ":" ++ g.module ++ ":" ++ ngen_inst

/-- `key.substr(0, key.find(":"))`. -/
def tableOf (key : String) : String := String.ofList (key.toList.takeWhile (· ≠ ':'))

-- ---------------------------------------------------------------------------
-- The scripts
-- ---------------------------------------------------------------------------

section Scripts

/-- The names in `KEYS` of uveupdate.lua. -/
structure UpdateKeys where
  _types : String
  _origins : String
  _table : String
  _uves : String
  _values : String

def uveupdate (db : Redis) (keys : UpdateKeys) (sm ngen_sm typ attr key : String) (seq : Int)
    (val part : String) (is_alarm : Bool) (ts_string : String) : Redis × Bool :=
  if db.sismember (redisKey .NGENERATORS "") ngen_sm = false then (db, false)
  else
    let db :=
      if is_alarm then db
      else
        (db.sadd (redisKey .PART2KEY part) (sm ++ ":" ++ typ ++ ":" ++ key)).hset
          (redisKey .KEY2PART (sm ++ ":" ++ typ)) key part
    let db := db.sadd keys._types typ
    let db := db.sadd keys._origins (sm ++ ":" ++ typ)
    let db := db.sadd keys._table (key ++ ":" ++ sm ++ ":" ++ typ)
    let db := db.zadd keys._uves seq key
    let db := db.hset keys._values attr val
    (db.hset keys._values "__T" ts_string, true)

/-- `sub_del` of uvedelete.lua: an attribute that is not XML is JSON that may name
other keys to delete (`hrefs`). -/
def sub_del (hrefs : String → List String) (db : Redis) (_values : String) : Redis :=
  (db.hgetall _values).foldl
    (fun db e =>
      if e.2.toList.head? = some '<' then db
      else ((hrefs e.2).foldl Redis.del db).hdel _values e.1) db

/-- The names in `KEYS` of uvedelete.lua. -/
structure DeleteKeys where
  _values : String
  _uves : String
  _origins : String
  _table : String

def uvedelete (hrefs : String → List String) (db : Redis) (keys : DeleteKeys)
    (sm ngen_sm typ key : String) (is_alarm : Bool) : Redis × Bool :=
  if db.sismember (redisKey .NGENERATORS "") ngen_sm = false then (db, false)
  else
    let db :=
      if is_alarm then db
      else
        match db.hget (redisKey .KEY2PART (sm ++ ":" ++ typ)) key with
        | none => db
        | some part =>
          (db.hdel (redisKey .KEY2PART (sm ++ ":" ++ typ)) key).srem (redisKey .PART2KEY part)
            (sm ++ ":" ++ typ ++ ":" ++ key)
    let db := sub_del hrefs db keys._values
    let db := db.zrem keys._uves key
    let db := db.srem keys._origins (sm ++ ":" ++ typ)
    let db := db.srem keys._table (key ++ ":" ++ sm ++ ":" ++ typ)
    (if db.exists keys._values then db.del keys._values else db, true)

/-- One UVE in the loop of delrequest.lua. A key without a `:` raises an error
in `string.sub`. -/
def delUve (sm deltyp deluve : String) (db : Redis) : Option Redis :=
  if ':' ∈ deluve.toList then
    let deltbl := tableOf deluve
    let db :=
      match db.hget (redisKey .KEY2PART (sm ++ ":" ++ deltyp)) deluve with
      | none => db
      | some part =>
        (db.hdel (redisKey .KEY2PART (sm ++ ":" ++ deltyp)) deluve).srem
          (redisKey .PART2KEY part) (sm ++ ":" ++ deltyp ++ ":" ++ deluve)
    let db := db.del (redisKey .VALUES (deluve ++ ":" ++ sm ++ ":" ++ deltyp))
    let entry := deluve ++ ":" ++ sm ++ ":" ++ deltyp
    if db.sismember (redisKey .ORIGINS deluve) (sm ++ ":" ++ deltyp) then
      some ((db.srem (redisKey .ORIGINS deluve) (sm ++ ":" ++ deltyp)).srem
        (redisKey .TABLE deltbl) entry)
    else
      some ((db.srem (redisKey .ALARM_ORIGINS deluve) (sm ++ ":" ++ deltyp)).srem
        (redisKey .ALARM_TABLE deltbl) entry)
  else none

/-- The UVEs of one type. -/
def delUves (sm deltyp : String) (db : Redis) (uves : List String) : Option Redis :=
  uves.foldlM (fun db deluve => delUve sm deltyp deluve db) db

/-- The types in turn, with the pairs returned so far. -/
def delTypes (sm : String) : List String → Redis → Option (Redis × List (String × String))
  | [], db => some (db, [])
  | v :: rest, db => do
    let lres := (db.zrange (redisKey .UVES (sm ++ ":" ++ v))).map Prod.fst
    let db ← delUves sm v (db.del (redisKey .UVES (sm ++ ":" ++ v))) lres
    let (db, res) ← delTypes sm rest db
    return (db, lres.map (fun deluve => (deluve, v)) ++ res)

/-- delrequest.lua: the database and the pairs of UVE and type returned. -/
def delrequest (db : Redis) (sm ngen_sm : String) : Option (Redis × List (String × String)) := do
  let (db, res) ← delTypes sm (db.smembers (redisKey .TYPES sm)) db
  let db := db.del (redisKey .TYPES sm)
  return (db.srem (redisKey .NGENERATORS "") ngen_sm, res)

/-- seqnum.lua: the newest sequence number of each type. -/
def seqnum (db : Redis) (sm ngen_sm : String) : Redis × List (String × Int) :=
  (db.sadd (redisKey .NGENERATORS "") ngen_sm,
    (db.smembers (redisKey .TYPES sm)).filterMap fun v =>
      (db.zrange (redisKey .UVES (sm ++ ":" ++ v))).getLast?.map fun e => (v, e.2))

end Scripts

-- ---------------------------------------------------------------------------
-- What the collector sends
-- ---------------------------------------------------------------------------

/-- What is fixed for a database: the partition of a key, which struct types are
alarms, and the keys a JSON attribute refers to. -/
structure UveEnv where
  part : UveKey → String
  isAlarm : StructType → Bool
  hrefs : String → List String

namespace Uve

def originText (u : Uve) : String := u.gen.sm ++ ":" ++ u.typ.name

def partText (u : Uve) : String := u.gen.sm ++ ":" ++ u.typ.name ++ ":" ++ u.key.text

def tableText (u : Uve) : String := u.key.text ++ ":" ++ u.gen.sm ++ ":" ++ u.typ.name

end Uve

def originsKind (is_alarm : Bool) : KeyKind := if is_alarm then .ALARM_ORIGINS else .ORIGINS

def tableKind (is_alarm : Bool) : KeyKind := if is_alarm then .ALARM_TABLE else .TABLE

def timestampText (ts : Nat) : String := "<__T type=\"u64\">" ++ toString ts ++ "</__T>"

def UVEUpdate (env : UveEnv) (db : Redis) (u : Uve) (ngen_inst attr : String) (seq : Int)
    (msg : AttrValue) (ts : Nat) : Redis × Bool :=
  let is_alarm := env.isAlarm u.typ
  uveupdate db
    { _types := redisKey .TYPES u.gen.sm
      _origins := redisKey (originsKind is_alarm) u.key.text
      _table := redisKey (tableKind is_alarm) (tableOf u.key.text)
      _uves := redisKey .UVES u.originText
      _values := redisKey .VALUES u.tableText }
    u.gen.sm (u.gen.ngen_sm ngen_inst) u.typ.name attr u.key.text seq msg.text (env.part u.key)
    is_alarm (timestampText ts)

def UVEDelete (env : UveEnv) (db : Redis) (u : Uve) (ngen_inst : String) : Redis × Bool :=
  let is_alarm := env.isAlarm u.typ
  uvedelete env.hrefs db
    { _values := redisKey .VALUES u.tableText
      _uves := redisKey .UVES u.originText
      _origins := redisKey (originsKind is_alarm) u.key.text
      _table := redisKey (tableKind is_alarm) (tableOf u.key.text) }
    u.gen.sm (u.gen.ngen_sm ngen_inst) u.typ.name u.key.text is_alarm

/-- What can happen to the database. -/
inductive UveOp where
  | uveupdate (u : Uve) (ngen_inst attr : String) (seq : Int) (msg : AttrValue) (ts : Nat)
  | uvedelete (u : Uve) (ngen_inst : String)
  | delrequest (g : Generator) (ngen_inst : String)
  | seqnum (g : Generator) (ngen_inst : String)
  | expire

/-- NGENERATORS expires when it has not been refreshed for 40 seconds. -/
def redisStep (env : UveEnv) (db : Redis) : UveOp → Option Redis
  | .uveupdate u ngen_inst attr seq msg ts =>
    some (UVEUpdate env db u ngen_inst attr seq msg ts).1
  | .uvedelete u ngen_inst => some (UVEDelete env db u ngen_inst).1
  | .delrequest g ngen_inst => (delrequest db g.sm (g.ngen_sm ngen_inst)).map Prod.fst
  | .seqnum g ngen_inst => some (seqnum db g.sm (g.ngen_sm ngen_inst)).1
  | .expire => some (db.del (redisKey .NGENERATORS ""))

def redisRun (env : UveEnv) (db : Redis) (ops : List UveOp) : Option Redis :=
  ops.foldlM (redisStep env) db

-- ---------------------------------------------------------------------------
-- What the database is for
-- ---------------------------------------------------------------------------

/-- The live structs and the registered generators. -/
structure Store where
  live : Set Uve
  ngenerators : Set String

namespace Store

def empty : Store := ⟨∅, ∅⟩

/-- A generator that is not registered changes nothing. -/
def step (s : Store) : UveOp → Store
  | .uveupdate u ngen_inst _ _ _ _ =>
    { s with live := {v | v ∈ s.live ∨ (v = u ∧ u.gen.ngen_sm ngen_inst ∈ s.ngenerators)} }
  | .uvedelete u ngen_inst =>
    { s with live := {v | v ∈ s.live ∧ ¬(v = u ∧ u.gen.ngen_sm ngen_inst ∈ s.ngenerators)} }
  | .delrequest g ngen_inst =>
    { live := {v | v ∈ s.live ∧ v.gen ≠ g}
      ngenerators := {x | x ∈ s.ngenerators ∧ x ≠ g.ngen_sm ngen_inst} }
  | .seqnum g ngen_inst =>
    { s with ngenerators := {x | x ∈ s.ngenerators ∨ x = g.ngen_sm ngen_inst} }
  | .expire => { s with ngenerators := ∅ }

end Store

-- ---------------------------------------------------------------------------
-- The encodings lose nothing
-- ---------------------------------------------------------------------------

theorem redisKey_inj {a b : KeyKind} {x y : String} :
    redisKey a x = redisKey b y ↔ a = b ∧ x = y := by
  constructor
  · intro h
    have hlist := congrArg String.toList h
    simp only [redisKey, String.toList_append] at hlist
    have hkind : a = b := by
      cases a <;> cases b <;> first | rfl | (simp [KeyKind.text] at hlist)
    subst hkind
    exact ⟨rfl, String.toList_inj.mp (List.append_cancel_left hlist)⟩
  · rintro ⟨rfl, rfl⟩
    rfl

/-- The four fields of a generator. -/
def Generator.fields (g : Generator) : List (List Char) :=
  [g.source.toList, g.node_type.toList, g.module.toList, g.instance_id.toList]

theorem Generator.colonFree_fields (g : Generator) : ∀ f ∈ g.fields, ':' ∉ f := by
  have h := g.colonFree
  simp only [List.mem_cons, List.not_mem_nil, or_false, forall_eq_or_imp, forall_eq] at h
  simpa [fields] using h

theorem Generator.ext_fields {g g' : Generator} (h : g.fields = g'.fields) : g = g' := by
  simp only [fields, List.cons.injEq, String.toList_inj, and_true] at h
  obtain ⟨h1, h2, h3, h4⟩ := h
  cases g
  cases g'
  simp_all

namespace Uve

theorem ext_fields {u v : Uve} (hg : u.gen.fields = v.gen.fields)
    (ht : u.typ.name.toList = v.typ.name.toList) (hk : u.key.text.toList = v.key.text.toList) :
    u = v := by
  obtain ⟨g, t, k⟩ := u
  obtain ⟨g', t', k'⟩ := v
  obtain rfl := Generator.ext_fields hg
  obtain rfl := StructType.ext (String.toList_inj.mp ht)
  obtain rfl := UveKey.ext (String.toList_inj.mp hk)
  rfl

def fields (u : Uve) : List (List Char) := u.gen.fields ++ [u.typ.name.toList]

theorem colonFree_fields (u : Uve) : ∀ f ∈ u.fields, ':' ∉ f := by
  intro f hf
  rcases List.mem_append.mp hf with hf | hf
  · exact u.gen.colonFree_fields f hf
  · rw [List.mem_singleton.mp hf]
    exact u.typ.colonFree

theorem partText_toList (u : Uve) :
    u.partText.toList = joinBefore ':' u.fields u.key.text.toList := by
  simp [partText, Generator.sm, fields, Generator.fields, joinBefore]

theorem tableText_toList (u : Uve) :
    u.tableText.toList = joinAfter ':' u.key.text.toList u.fields := by
  simp [tableText, Generator.sm, fields, Generator.fields, joinAfter]

theorem originText_toList (u : Uve) :
    u.originText.toList = joinBefore ':' u.gen.fields u.typ.name.toList := by
  simp [originText, Generator.sm, Generator.fields, joinBefore]

theorem fields_inj {u v : Uve} (h : u.fields = v.fields) :
    u.gen.fields = v.gen.fields ∧ u.typ.name.toList = v.typ.name.toList := by
  obtain ⟨hg, ht⟩ := List.append_inj h rfl
  exact ⟨hg, List.head_eq_of_cons_eq ht⟩

theorem partText_inj {u v : Uve} : u.partText = v.partText ↔ u = v := by
  refine ⟨fun h => ?_, congrArg _⟩
  rw [← String.toList_inj, partText_toList, partText_toList] at h
  obtain ⟨hf, hk⟩ := joinBefore_inj u.colonFree_fields v.colonFree_fields rfl h
  exact ext_fields (fields_inj hf).1 (fields_inj hf).2 hk

theorem tableText_inj {u v : Uve} : u.tableText = v.tableText ↔ u = v := by
  refine ⟨fun h => ?_, congrArg _⟩
  rw [← String.toList_inj, tableText_toList, tableText_toList] at h
  obtain ⟨hk, hf⟩ := joinAfter_inj u.colonFree_fields v.colonFree_fields rfl h
  exact ext_fields (fields_inj hf).1 (fields_inj hf).2 hk

theorem originText_inj {u v : Uve} :
    u.originText = v.originText ↔ u.gen = v.gen ∧ u.typ = v.typ := by
  constructor
  · intro h
    rw [← String.toList_inj, originText_toList, originText_toList] at h
    obtain ⟨hg, ht⟩ := joinBefore_inj u.gen.colonFree_fields v.gen.colonFree_fields rfl h
    exact ⟨Generator.ext_fields hg, StructType.ext (String.toList_inj.mp ht)⟩
  · rintro ⟨hg, ht⟩
    rw [originText, originText, hg, ht]

end Uve

theorem Generator.sm_inj {g g' : Generator} : g.sm = g'.sm ↔ g = g' := by
  refine ⟨fun h => ?_, congrArg _⟩
  have hlist : ∀ g : Generator, g.sm.toList =
      joinBefore ':' [g.source.toList, g.node_type.toList, g.module.toList]
        g.instance_id.toList := by
    intro g
    simp [sm, joinBefore]
  have hfree : ∀ g : Generator, ∀ f ∈ [g.source.toList, g.node_type.toList, g.module.toList],
      ':' ∉ f := by
    intro g f hf
    apply g.colonFree_fields f
    simp only [fields, List.mem_cons, List.not_mem_nil, or_false] at hf ⊢
    tauto
  rw [← String.toList_inj, hlist, hlist] at h
  obtain ⟨hf, hi⟩ := joinBefore_inj (hfree g) (hfree g') rfl h
  apply Generator.ext_fields
  simp only [List.cons.injEq, and_true] at hf
  simp [fields, hf, hi]

-- ---------------------------------------------------------------------------
-- The indexes of the live structs
-- ---------------------------------------------------------------------------

/-- The hashes and the indexes by key, table and partition hold exactly the
structs in `live`. -/
structure Indexed (env : UveEnv) (db : Redis) (live : Set Uve) : Prop where
  values : ∀ u : Uve, db.hashes (redisKey .VALUES u.tableText) ≠ [] ↔ u ∈ live
  xml : ∀ u : Uve, ∀ e ∈ db.hashes (redisKey .VALUES u.tableText), e.2.toList.head? = some '<'
  origins : ∀ a k x, x ∈ db.sets (redisKey (originsKind a) k) ↔
    ∃ u ∈ live, a = env.isAlarm u.typ ∧ k = u.key.text ∧ x = u.originText
  table : ∀ a t x, x ∈ db.sets (redisKey (tableKind a) t) ↔
    ∃ u ∈ live, a = env.isAlarm u.typ ∧ t = tableOf u.key.text ∧ x = u.tableText
  part2key : ∀ p x, x ∈ db.sets (redisKey .PART2KEY p) ↔
    ∃ u ∈ live, env.isAlarm u.typ = false ∧ p = env.part u.key ∧ x = u.partText
  key2part : ∀ o k p, db.hget (redisKey .KEY2PART o) k = some p ↔
    ∃ u ∈ live, env.isAlarm u.typ = false ∧ o = u.originText ∧ k = u.key.text ∧
      p = env.part u.key

/-- The sorted sets hold exactly the structs in `live`. -/
def Listed (db : Redis) (live : Set Uve) : Prop :=
  ∀ o x, x ∈ db.zmembers (redisKey .UVES o) ↔ ∃ u ∈ live, o = u.originText ∧ x = u.key.text

structure Represents (env : UveEnv) (db : Redis) (s : Store) : Prop where
  indexed : Indexed env db s.live
  listed : Listed db s.live
  types : ∀ u ∈ s.live, u.typ.name ∈ db.sets (redisKey .TYPES u.gen.sm)
  typeNames : ∀ g x, x ∈ db.sets (redisKey .TYPES g) → ∃ t : StructType, x = t.name
  ngenerators : ∀ x, x ∈ db.sets (redisKey .NGENERATORS "") ↔ x ∈ s.ngenerators
  nodup : ∀ k, (db.sets k).Nodup
  znodup : ∀ k, (db.zmembers k).Nodup

attribute [simp] redisKey_inj

@[simp] theorem originsKind_inj {a b : Bool} : originsKind a = originsKind b ↔ a = b := by
  cases a <;> cases b <;> decide

@[simp] theorem tableKind_inj {a b : Bool} : tableKind a = tableKind b ↔ a = b := by
  cases a <;> cases b <;> decide

@[simp] theorem originsKind_ne (a : Bool) :
    originsKind a ≠ .PART2KEY ∧ .PART2KEY ≠ originsKind a ∧ originsKind a ≠ .TYPES ∧
      .TYPES ≠ originsKind a ∧ originsKind a ≠ .NGENERATORS ∧ .NGENERATORS ≠ originsKind a ∧
      originsKind a ≠ .VALUES ∧ originsKind a ≠ .UVES ∧
      ∀ b, originsKind a ≠ tableKind b ∧ tableKind b ≠ originsKind a := by
  cases a <;> simp [originsKind, tableKind]

@[simp] theorem tableKind_ne (a : Bool) :
    tableKind a ≠ .PART2KEY ∧ .PART2KEY ≠ tableKind a ∧ tableKind a ≠ .TYPES ∧
      .TYPES ≠ tableKind a ∧ tableKind a ≠ .NGENERATORS ∧ .NGENERATORS ≠ tableKind a ∧
      tableKind a ≠ .VALUES ∧ tableKind a ≠ .UVES := by
  cases a <;> decide

theorem represents_empty (env : UveEnv) : Represents env .empty .empty := by
  constructor
  · constructor <;> simp [Redis.empty, Store.empty, Redis.hget]
  · simp [Listed, Redis.empty, Store.empty, Redis.zmembers]
  · simp [Store.empty]
  · simp [Redis.empty]
  · simp [Redis.empty, Store.empty]
  · simp [Redis.empty]
  · simp [Redis.empty, Redis.zmembers]

-- ---------------------------------------------------------------------------
-- Update
-- ---------------------------------------------------------------------------

/-- A struct that is not an alarm is also entered in its partition. -/
def addToPartition (env : UveEnv) (db : Redis) (u : Uve) : Redis :=
  if env.isAlarm u.typ then db
  else
    (db.sadd (redisKey .PART2KEY (env.part u.key)) u.partText).hset
      (redisKey .KEY2PART u.originText) u.key.text (env.part u.key)

/-- The database after an update by a registered generator. -/
def entered (env : UveEnv) (db : Redis) (u : Uve) (attr : String) (seq : Int) (msg : AttrValue)
    (ts : Nat) : Redis :=
  let db := (addToPartition env db u).sadd (redisKey .TYPES u.gen.sm) u.typ.name
  let db := db.sadd (redisKey (originsKind (env.isAlarm u.typ)) u.key.text) u.originText
  let db := db.sadd (redisKey (tableKind (env.isAlarm u.typ)) (tableOf u.key.text)) u.tableText
  let db := db.zadd (redisKey .UVES u.originText) seq u.key.text
  (db.hset (redisKey .VALUES u.tableText) attr msg.text).hset
    (redisKey .VALUES u.tableText) "__T" (timestampText ts)

section Update

variable {env : UveEnv} {db : Redis} {u : Uve} {attr : String} {seq : Int} {msg : AttrValue}
  {ts : Nat}

theorem UVEUpdate_registered {ngen_inst : String}
    (h : u.gen.ngen_sm ngen_inst ∈ db.sets (redisKey .NGENERATORS "")) :
    (UVEUpdate env db u ngen_inst attr seq msg ts).1 = entered env db u attr seq msg ts := by
  unfold UVEUpdate uveupdate
  rw [if_neg (by simp [Redis.sismember, h])]
  rfl

theorem UVEUpdate_unregistered {ngen_inst : String}
    (h : u.gen.ngen_sm ngen_inst ∉ db.sets (redisKey .NGENERATORS "")) :
    (UVEUpdate env db u ngen_inst attr seq msg ts).1 = db := by
  unfold UVEUpdate uveupdate
  rw [if_pos (by simp [Redis.sismember, h])]

theorem timestampText_xml (ts : Nat) : (timestampText ts).toList.head? = some '<' := by
  unfold timestampText
  rw [String.toList_append, String.toList_append, List.append_assoc]
  rfl

theorem mem_entered {k x : String} :
    x ∈ (entered env db u attr seq msg ts).sets k ↔ x ∈ db.sets k ∨
      (env.isAlarm u.typ = false ∧ k = redisKey .PART2KEY (env.part u.key) ∧ x = u.partText) ∨
      (k = redisKey .TYPES u.gen.sm ∧ x = u.typ.name) ∨
      (k = redisKey (originsKind (env.isAlarm u.typ)) u.key.text ∧ x = u.originText) ∨
      (k = redisKey (tableKind (env.isAlarm u.typ)) (tableOf u.key.text) ∧ x = u.tableText) := by
  unfold entered addToPartition
  cases env.isAlarm u.typ <;> simp [or_assoc]

theorem entered_hashes_of_ne {k : String} (hv : k ≠ redisKey .VALUES u.tableText)
    (hk : k ≠ redisKey .KEY2PART u.originText) :
    (entered env db u attr seq msg ts).hashes k = db.hashes k := by
  unfold entered addToPartition
  simp only [Redis.hset_hashes_of_ne _ _ _ _ _ hv, Redis.zadd_hashes, Redis.sadd_hashes]
  split
  · rfl
  · rw [Redis.hset_hashes_of_ne _ _ _ _ _ hk, Redis.sadd_hashes]

theorem entered_values :
    (entered env db u attr seq msg ts).hashes (redisKey .VALUES u.tableText) =
      ("__T", timestampText ts) :: Redis.hashErase "__T" ((attr, msg.text) ::
        Redis.hashErase attr (db.hashes (redisKey .VALUES u.tableText))) := by
  unfold entered addToPartition
  simp only [Redis.hset_hashes_self, Redis.zadd_hashes, Redis.sadd_hashes]
  split
  · rfl
  · rw [Redis.hset_hashes_of_ne _ _ _ _ _ (by simp), Redis.sadd_hashes]

theorem mem_entered_values {e : String × String}
    (h : e ∈ (entered env db u attr seq msg ts).hashes (redisKey .VALUES u.tableText)) :
    e.2.toList.head? = some '<' ∨ e ∈ db.hashes (redisKey .VALUES u.tableText) := by
  rw [entered_values, List.mem_cons] at h
  rcases h with rfl | h
  · exact .inl (timestampText_xml ts)
  · have h := List.mem_of_mem_filter h
    rw [List.mem_cons] at h
    rcases h with rfl | h
    · exact .inl msg.isXml
    · exact .inr (List.mem_of_mem_filter h)

theorem hget_entered {o k : String} :
    (entered env db u attr seq msg ts).hget (redisKey .KEY2PART o) k =
      if env.isAlarm u.typ = false ∧ o = u.originText ∧ k = u.key.text then
        some (env.part u.key)
      else db.hget (redisKey .KEY2PART o) k := by
  unfold entered addToPartition
  cases env.isAlarm u.typ <;> simp

theorem mem_zmembers_entered {k x : String} :
    x ∈ (entered env db u attr seq msg ts).zmembers k ↔
      x ∈ db.zmembers k ∨ (k = redisKey .UVES u.originText ∧ x = u.key.text) := by
  unfold entered addToPartition
  cases env.isAlarm u.typ <;> simp

/-- Membership in the structs with one more. -/
theorem exists_or_eq {live : Set Uve} {p : Uve → Prop} :
    (∃ v ∈ ({v | v ∈ live ∨ v = u} : Set Uve), p v) ↔ (∃ v ∈ live, p v) ∨ p u := by
  constructor
  · rintro ⟨v, hv | rfl, hp⟩
    · exact .inl ⟨v, hv, hp⟩
    · exact .inr hp
  · rintro (⟨v, hv, hp⟩ | hp)
    · exact ⟨v, .inl hv, hp⟩
    · exact ⟨u, .inr rfl, hp⟩

theorem Indexed.entered {live : Set Uve} (h : Indexed env db live) :
    Indexed env (entered env db u attr seq msg ts) {v | v ∈ live ∨ v = u} := by
  constructor
  · intro v
    by_cases hv : v = u
    · subst hv
      simp [entered_values]
    · rw [entered_hashes_of_ne (by simpa [Uve.tableText_inj] using hv) (by simp), h.values]
      simp [hv]
  · intro v e he
    by_cases hv : v = u
    · subst hv
      exact (mem_entered_values he).elim id (h.xml v e)
    · rw [entered_hashes_of_ne (by simpa [Uve.tableText_inj] using hv) (by simp)] at he
      exact h.xml v e he
  · intro a k x
    rw [mem_entered, h.origins, exists_or_eq]
    simp [and_assoc]
  · intro a t x
    rw [mem_entered, h.table, exists_or_eq]
    simp [and_assoc]
  · intro p x
    rw [mem_entered, h.part2key, exists_or_eq]
    simp
  · intro o k p
    rw [hget_entered, exists_or_eq]
    by_cases hu : env.isAlarm u.typ = false ∧ o = u.originText ∧ k = u.key.text
    · -- another live struct with this name and key is this one
      rw [if_pos hu, Option.some.injEq, eq_comm]
      refine ⟨fun hp => .inr ⟨hu.1, hu.2.1, hu.2.2, hp⟩, ?_⟩
      rintro (⟨v, -, -, -, hk, hp⟩ | ⟨-, -, -, hp⟩)
      · rw [hp, UveKey.ext (hk.symm.trans hu.2.2)]
      · exact hp
    · rw [if_neg hu, h.key2part]
      exact ⟨.inl, fun hor => hor.resolve_right fun hr => hu ⟨hr.1, hr.2.1, hr.2.2.1⟩⟩

theorem nodup_entered (h : ∀ k, (db.sets k).Nodup) (k : String) :
    ((entered env db u attr seq msg ts).sets k).Nodup := by
  have hpart : ∀ k, ((addToPartition env db u).sets k).Nodup := by
    unfold addToPartition
    split
    · exact h
    · exact fun k => Redis.nodup_sadd _ _ _ k h
  exact Redis.nodup_sadd _ _ _ k fun k => Redis.nodup_sadd _ _ _ k fun k =>
    Redis.nodup_sadd _ _ _ k hpart

theorem znodup_entered (h : ∀ k, (db.zmembers k).Nodup) (k : String) :
    ((entered env db u attr seq msg ts).zmembers k).Nodup := by
  have hpart : ∀ k, ((addToPartition env db u).zmembers k).Nodup := by
    unfold addToPartition
    split <;> exact h
  exact Redis.nodup_zadd _ _ _ k _ hpart

/-- What an update does, whether or not the generator is registered. -/
theorem represents_update {s : Store} (h : Represents env db s) (ngen_inst : String) :
    Represents env (UVEUpdate env db u ngen_inst attr seq msg ts).1
      (s.step (.uveupdate u ngen_inst attr seq msg ts)) := by
  by_cases hreg : u.gen.ngen_sm ngen_inst ∈ s.ngenerators
  · have hlive : (s.step (.uveupdate u ngen_inst attr seq msg ts)).live =
        {v | v ∈ s.live ∨ v = u} := by
      simp [Store.step, hreg]
    rw [UVEUpdate_registered ((h.ngenerators _).mpr hreg)]
    constructor
    · rw [hlive]
      exact h.indexed.entered
    · intro o x
      rw [hlive, mem_zmembers_entered, h.listed, exists_or_eq]
      simp
    · intro v hv
      rw [hlive] at hv
      rw [mem_entered]
      rcases hv with hv | rfl
      · exact .inl (h.types v hv)
      · exact .inr (.inr (.inl ⟨rfl, rfl⟩))
    · intro g x hx
      rw [mem_entered] at hx
      simp only [redisKey_inj, reduceCtorEq, false_and, and_false, originsKind_ne, tableKind_ne,
        false_or, or_false, true_and] at hx
      rcases hx with hx | ⟨-, hx⟩
      · exact h.typeNames g x hx
      · exact ⟨u.typ, hx⟩
    · intro x
      rw [mem_entered, h.ngenerators]
      simp [Store.step]
    · exact nodup_entered h.nodup
    · exact znodup_entered h.znodup
  · have hstep : s.step (.uveupdate u ngen_inst attr seq msg ts) = s := by
      simp [Store.step, hreg]
    rw [UVEUpdate_unregistered (fun hr => hreg ((h.ngenerators _).mp hr)), hstep]
    exact h

end Update

-- ---------------------------------------------------------------------------
-- Removing one struct
-- ---------------------------------------------------------------------------

/-- One struct is taken out of the hashes and of the indexes by key, table and
partition. -/
structure Drops (env : UveEnv) (db db' : Redis) (u : Uve) : Prop where
  origins : ∀ a k x, x ∈ db'.sets (redisKey (originsKind a) k) ↔
    x ∈ db.sets (redisKey (originsKind a) k) ∧
      ¬(a = env.isAlarm u.typ ∧ k = u.key.text ∧ x = u.originText)
  table : ∀ a t x, x ∈ db'.sets (redisKey (tableKind a) t) ↔
    x ∈ db.sets (redisKey (tableKind a) t) ∧
      ¬(a = env.isAlarm u.typ ∧ t = tableOf u.key.text ∧ x = u.tableText)
  part2key : ∀ p x, x ∈ db'.sets (redisKey .PART2KEY p) ↔
    x ∈ db.sets (redisKey .PART2KEY p) ∧
      ¬(env.isAlarm u.typ = false ∧ p = env.part u.key ∧ x = u.partText)
  key2part : ∀ o k, db'.hget (redisKey .KEY2PART o) k =
    if env.isAlarm u.typ = false ∧ o = u.originText ∧ k = u.key.text then none
    else db.hget (redisKey .KEY2PART o) k
  values : ∀ s, db'.hashes (redisKey .VALUES s) =
    if s = u.tableText then [] else db.hashes (redisKey .VALUES s)

/-- The types and the registered generators stay as they are. -/
structure Kept (db db' : Redis) : Prop where
  types : ∀ g x, x ∈ db'.sets (redisKey .TYPES g) ↔ x ∈ db.sets (redisKey .TYPES g)
  ngenerators : ∀ x, x ∈ db'.sets (redisKey .NGENERATORS "") ↔
    x ∈ db.sets (redisKey .NGENERATORS "")
  nodup : (∀ k, (db.sets k).Nodup) → ∀ k, (db'.sets k).Nodup
  znodup : (∀ k, (db.zmembers k).Nodup) → ∀ k, (db'.zmembers k).Nodup

theorem Uve.eq_of_origin {u v : Uve} (ho : v.originText = u.originText)
    (hk : v.key.text = u.key.text) : v = u := by
  obtain ⟨hg, ht⟩ := originText_inj.mp ho
  exact ext_fields (by rw [hg]) (by rw [ht]) (by rw [hk])

/-- Membership in the structs with one less, for a property that tells them
apart. -/
theorem exists_and_ne {live : Set Uve} {u : Uve} {p : Uve → Prop}
    (hp : ∀ v, p v → p u → v = u) :
    (∃ v ∈ ({v | v ∈ live ∧ v ≠ u} : Set Uve), p v) ↔ (∃ v ∈ live, p v) ∧ ¬p u := by
  constructor
  · rintro ⟨v, ⟨hv, hne⟩, hpv⟩
    exact ⟨⟨v, hv, hpv⟩, fun hpu => hne (hp v hpv hpu)⟩
  · rintro ⟨⟨v, hv, hpv⟩, hpu⟩
    exact ⟨v, ⟨hv, fun heq => hpu (heq ▸ hpv)⟩, hpv⟩

theorem Indexed.drop {env : UveEnv} {db db' : Redis} {live : Set Uve} {u : Uve}
    (h : Indexed env db live) (hd : Drops env db db' u) :
    Indexed env db' {v | v ∈ live ∧ v ≠ u} := by
  constructor
  · intro v
    rw [hd.values]
    by_cases hv : v = u
    · simp [hv]
    · rw [if_neg (fun ht => hv (Uve.tableText_inj.mp ht)), h.values]
      simp [hv]
  · intro v e he
    rw [hd.values] at he
    split at he
    · cases he
    · exact h.xml v e he
  · intro a k x
    rw [hd.origins, h.origins, exists_and_ne]
    rintro v ⟨-, hk, ho⟩ ⟨-, hk', ho'⟩
    exact Uve.eq_of_origin (ho.symm.trans ho') (hk.symm.trans hk')
  · intro a t x
    rw [hd.table, h.table, exists_and_ne]
    rintro v ⟨-, -, ht⟩ ⟨-, -, ht'⟩
    exact Uve.tableText_inj.mp (ht.symm.trans ht')
  · intro p x
    rw [hd.part2key, h.part2key, exists_and_ne]
    rintro v ⟨-, -, hx⟩ ⟨-, -, hx'⟩
    exact Uve.partText_inj.mp (hx.symm.trans hx')
  · intro o k p
    rw [hd.key2part, exists_and_ne]
    · by_cases hu : env.isAlarm u.typ = false ∧ o = u.originText ∧ k = u.key.text
      · rw [if_pos hu]
        refine ⟨nofun, ?_⟩
        rintro ⟨⟨v, -, -, -, hk, hp⟩, hnot⟩
        refine absurd ⟨hu.1, hu.2.1, hu.2.2, ?_⟩ hnot
        rw [hp, UveKey.ext (hk.symm.trans hu.2.2)]
      · rw [if_neg hu, h.key2part]
        exact ⟨fun hv => ⟨hv, fun hp => hu ⟨hp.1, hp.2.1, hp.2.2.1⟩⟩, And.left⟩
    · rintro v ⟨-, ho, hk, -⟩ ⟨-, ho', hk', -⟩
      exact Uve.eq_of_origin (ho.symm.trans ho') (hk.symm.trans hk')

section Remove

variable {env : UveEnv} {db : Redis} {live : Set Uve} {u : Uve}

/-- The partition of a struct is forgotten, if it has one. -/
def dropFromPartition (db : Redis) (u : Uve) : Redis :=
  match db.hget (redisKey .KEY2PART u.originText) u.key.text with
  | none => db
  | some part =>
    (db.hdel (redisKey .KEY2PART u.originText) u.key.text).srem (redisKey .PART2KEY part)
      u.partText

theorem Indexed.hget_of_live (h : Indexed env db live) (hu : u ∈ live)
    (ha : env.isAlarm u.typ = false) :
    db.hget (redisKey .KEY2PART u.originText) u.key.text = some (env.part u.key) :=
  (h.key2part _ _ _).mpr ⟨u, hu, ha, rfl, rfl, rfl⟩

theorem Indexed.hget_eq_none (h : Indexed env db live)
    (hu : ¬(u ∈ live ∧ env.isAlarm u.typ = false)) :
    db.hget (redisKey .KEY2PART u.originText) u.key.text = none := by
  rw [Option.eq_none_iff_forall_ne_some]
  intro p hp
  obtain ⟨v, hv, ha, ho, hk, -⟩ := (h.key2part _ _ _).mp hp
  obtain rfl := Uve.eq_of_origin ho.symm hk.symm
  exact hu ⟨hv, ha⟩

theorem mem_dropFromPartition (h : Indexed env db live) {kind : KeyKind} {s x : String} :
    x ∈ (dropFromPartition db u).sets (redisKey kind s) ↔
      x ∈ db.sets (redisKey kind s) ∧ ¬(kind = .PART2KEY ∧ env.isAlarm u.typ = false ∧
        s = env.part u.key ∧ x = u.partText) := by
  unfold dropFromPartition
  by_cases hu : u ∈ live ∧ env.isAlarm u.typ = false
  · rw [h.hget_of_live hu.1 hu.2]
    simp [hu.2, and_assoc]
  · rw [h.hget_eq_none hu]
    refine ⟨fun hx => ⟨hx, ?_⟩, And.left⟩
    rintro ⟨rfl, ha, -, rfl⟩
    obtain ⟨v, hv, -, -, hx⟩ := (h.part2key _ _).mp hx
    obtain rfl := Uve.partText_inj.mp hx
    exact hu ⟨hv, ha⟩

theorem hget_dropFromPartition (h : Indexed env db live) {o k : String} :
    (dropFromPartition db u).hget (redisKey .KEY2PART o) k =
      if env.isAlarm u.typ = false ∧ o = u.originText ∧ k = u.key.text then none
      else db.hget (redisKey .KEY2PART o) k := by
  unfold dropFromPartition
  by_cases hu : u ∈ live ∧ env.isAlarm u.typ = false
  · rw [h.hget_of_live hu.1 hu.2]
    simp [hu.2]
  · rw [h.hget_eq_none hu]
    by_cases hk : env.isAlarm u.typ = false ∧ o = u.originText ∧ k = u.key.text
    · rw [if_pos hk, hk.2.1, hk.2.2]
      exact h.hget_eq_none hu
    · rw [if_neg hk]

theorem dropFromPartition_hashes (s : String) :
    (dropFromPartition db u).hashes (redisKey .VALUES s) = db.hashes (redisKey .VALUES s) := by
  unfold dropFromPartition
  split
  · rfl
  · rw [Redis.srem_hashes, Redis.hdel_hashes_of_ne _ _ _ _ (by simp)]

theorem dropFromPartition_zmembers : (dropFromPartition db u).zmembers = db.zmembers := by
  unfold dropFromPartition
  split <;> rfl

theorem nodup_dropFromPartition (h : ∀ k, (db.sets k).Nodup) (k : String) :
    ((dropFromPartition db u).sets k).Nodup := by
  unfold dropFromPartition
  split
  · exact h k
  · exact Redis.nodup_srem _ _ _ k h

/-- A struct is taken out of the indexes by type, key and table. -/
def unlisted (env : UveEnv) (db : Redis) (u : Uve) : Redis :=
  let db := db.zrem (redisKey .UVES u.originText) u.key.text
  let db := db.srem (redisKey (originsKind (env.isAlarm u.typ)) u.key.text) u.originText
  db.srem (redisKey (tableKind (env.isAlarm u.typ)) (tableOf u.key.text)) u.tableText

/-- The database after a delete by a registered generator. -/
def removed (env : UveEnv) (db : Redis) (u : Uve) : Redis :=
  (unlisted env (dropFromPartition db u) u).del (redisKey .VALUES u.tableText)

theorem drops_removed (h : Indexed env db live) : Drops env db (removed env db u) u := by
  unfold removed unlisted
  constructor
  · intro a k x
    simp [mem_dropFromPartition h, and_assoc]
  · intro a t x
    simp [mem_dropFromPartition h, and_assoc]
  · intro p x
    simp [mem_dropFromPartition h]
  · intro o k
    simp [hget_dropFromPartition h]
  · intro s
    simp [Redis.del_hashes, dropFromPartition_hashes]

theorem kept_removed (h : Indexed env db live) : Kept db (removed env db u) := by
  unfold removed unlisted
  constructor
  · intro g x
    simp [mem_dropFromPartition h]
  · intro x
    simp [mem_dropFromPartition h]
  · intro hnodup k
    exact Redis.nodup_del _ _ k fun k => Redis.nodup_srem _ _ _ k fun k =>
      Redis.nodup_srem _ _ _ k fun k => nodup_dropFromPartition hnodup k
  · intro hnodup k
    refine Redis.znodup_del _ _ k fun k => Redis.nodup_zrem _ _ _ k fun k => ?_
    rw [dropFromPartition_zmembers]
    exact hnodup k

theorem mem_zmembers_removed {o x : String} :
    x ∈ (removed env db u).zmembers (redisKey .UVES o) ↔
      x ∈ db.zmembers (redisKey .UVES o) ∧ ¬(o = u.originText ∧ x = u.key.text) := by
  simp [removed, unlisted, dropFromPartition_zmembers]

/-- No attribute is JSON, so none refers to anything. -/
theorem sub_del_xml {hrefs : String → List String} {_values : String}
    (h : ∀ e ∈ db.hashes _values, e.2.toList.head? = some '<') :
    sub_del hrefs db _values = db := by
  unfold sub_del Redis.hgetall
  generalize db.hashes _values = l at h
  induction l with
  | nil => rfl
  | cons e l ih =>
    rw [List.foldl_cons, if_pos (h e List.mem_cons_self)]
    exact ih fun f hf => h f (List.mem_cons_of_mem e hf)

theorem UVEDelete_registered {ngen_inst : String} (h : Indexed env db live)
    (hreg : u.gen.ngen_sm ngen_inst ∈ db.sets (redisKey .NGENERATORS "")) :
    (UVEDelete env db u ngen_inst).1 = removed env db u := by
  -- an alarm has no partition to forget
  have hpart : (if env.isAlarm u.typ then db else dropFromPartition db u) =
      dropFromPartition db u := by
    split
    · rename_i ha
      rw [dropFromPartition, h.hget_eq_none (by simp [ha])]
    · rfl
  have hxml : ∀ e ∈ (dropFromPartition db u).hashes (redisKey .VALUES u.tableText),
      e.2.toList.head? = some '<' := by
    rw [dropFromPartition_hashes]
    exact h.xml u
  unfold UVEDelete uvedelete
  rw [if_neg (by simp [Redis.sismember, hreg])]
  change
    (let db := unlisted env (sub_del env.hrefs
        (if env.isAlarm u.typ then db else dropFromPartition db u) (redisKey .VALUES u.tableText)) u
    if db.exists (redisKey .VALUES u.tableText) then db.del (redisKey .VALUES u.tableText)
    else db) = _
  rw [hpart, sub_del_xml hxml]
  exact Redis.del_if_exists _ _

theorem UVEDelete_unregistered {ngen_inst : String}
    (h : u.gen.ngen_sm ngen_inst ∉ db.sets (redisKey .NGENERATORS "")) :
    (UVEDelete env db u ngen_inst).1 = db := by
  unfold UVEDelete uvedelete
  rw [if_pos (by simp [Redis.sismember, h])]

/-- What a delete does, whether or not the generator is registered. -/
theorem represents_delete {s : Store} (h : Represents env db s) (ngen_inst : String) :
    Represents env (UVEDelete env db u ngen_inst).1 (s.step (.uvedelete u ngen_inst)) := by
  by_cases hreg : u.gen.ngen_sm ngen_inst ∈ s.ngenerators
  · have hlive : (s.step (.uvedelete u ngen_inst)).live = {v | v ∈ s.live ∧ v ≠ u} := by
      simp [Store.step, hreg]
    have hkept : Kept db (removed env db u) := kept_removed h.indexed
    rw [UVEDelete_registered h.indexed ((h.ngenerators _).mpr hreg)]
    constructor
    · rw [hlive]
      exact h.indexed.drop (drops_removed h.indexed)
    · intro o x
      rw [hlive, mem_zmembers_removed, h.listed, exists_and_ne]
      rintro v ⟨ho, hk⟩ ⟨ho', hk'⟩
      exact Uve.eq_of_origin (ho.symm.trans ho') (hk.symm.trans hk')
    · intro v hv
      rw [hlive] at hv
      exact (hkept.types _ _).mpr (h.types v hv.1)
    · intro g x hx
      exact h.typeNames g x ((hkept.types g x).mp hx)
    · intro x
      rw [hkept.ngenerators, h.ngenerators]
      rfl
    · exact hkept.nodup h.nodup
    · exact hkept.znodup h.znodup
  · have hstep : s.step (.uvedelete u ngen_inst) = s := by
      simp [Store.step, hreg]
    rw [UVEDelete_unregistered (fun hr => hreg ((h.ngenerators _).mp hr)), hstep]
    exact h

end Remove

-- ---------------------------------------------------------------------------
-- Removing a generator
-- ---------------------------------------------------------------------------

section DelRequest

variable {env : UveEnv} {db : Redis} {live : Set Uve} {u : Uve}

/-- The names the indexes of `Indexed` are in. -/
def KeyKind.isIndex : KeyKind → Bool
  | .TYPES | .NGENERATORS | .UVES => false
  | _ => true

/-- Other names do not matter to the indexes. -/
theorem Indexed.congr {db' : Redis} (h : Indexed env db live)
    (hsame : ∀ kind s, kind.isIndex → db'.sets (redisKey kind s) = db.sets (redisKey kind s) ∧
      db'.hashes (redisKey kind s) = db.hashes (redisKey kind s)) :
    Indexed env db' live := by
  constructor
  · intro v
    rw [(hsame .VALUES _ rfl).2, h.values]
  · intro v e he
    rw [(hsame .VALUES _ rfl).2] at he
    exact h.xml v e he
  · intro a k x
    rw [(hsame (originsKind a) _ (by cases a <;> rfl)).1, h.origins]
  · intro a t x
    rw [(hsame (tableKind a) _ (by cases a <;> rfl)).1, h.table]
  · intro p x
    rw [(hsame .PART2KEY _ rfl).1, h.part2key]
  · intro o k p
    rw [← h.key2part, Redis.hget, Redis.hget, (hsame .KEY2PART _ rfl).2]

theorem Indexed.del (h : Indexed env db live) {kind : KeyKind} (hkind : kind.isIndex = false)
    (s : String) : Indexed env (db.del (redisKey kind s)) live := by
  refine h.congr fun kind' s' hindex => ?_
  have hne : redisKey kind' s' ≠ redisKey kind s := by
    intro heq
    rw [(redisKey_inj.mp heq).1, hkind] at hindex
    cases hindex
  exact ⟨Redis.del_sets_of_ne _ _ _ hne, Redis.del_hashes_of_ne _ _ _ hne⟩

/-- The database after one round of the loop over the UVEs of a type. -/
def delUveDone (env : UveEnv) (db : Redis) (u : Uve) : Redis :=
  let db := (dropFromPartition db u).del (redisKey .VALUES u.tableText)
  let db := db.srem (redisKey (originsKind (env.isAlarm u.typ)) u.key.text) u.originText
  db.srem (redisKey (tableKind (env.isAlarm u.typ)) (tableOf u.key.text)) u.tableText

/-- ORIGINS tells whether the struct is an alarm. -/
theorem delUve_eq (h : Indexed env db live) (hu : u ∈ live) :
    delUve u.gen.sm u.typ.name u.key.text db = some (delUveDone env db u) := by
  have horigin : u.originText ∈ ((dropFromPartition db u).del
      (redisKey .VALUES u.tableText)).sets (redisKey .ORIGINS u.key.text) ↔
        env.isAlarm u.typ = false := by
    have hkind : KeyKind.ORIGINS = originsKind false := rfl
    rw [Redis.mem_del_sets, mem_dropFromPartition h, hkind, h.origins]
    constructor
    · rintro ⟨⟨⟨v, hv, ha, hk, ho⟩, -⟩, -⟩
      rw [Uve.eq_of_origin ho hk, ha]
    · intro ha
      exact ⟨⟨⟨u, hu, ha.symm, rfl, rfl⟩, by simp⟩, by simp⟩
  unfold delUve delUveDone
  rw [if_pos u.key.hasColon]
  change (if ((dropFromPartition db u).del (redisKey .VALUES u.tableText)).sismember
    (redisKey .ORIGINS u.key.text) u.originText then _ else _) = _
  by_cases ha : env.isAlarm u.typ = false
  · rw [if_pos (by simpa [Redis.sismember] using horigin.mpr ha), ha]
    rfl
  · have htrue : env.isAlarm u.typ = true := by simpa using ha
    rw [if_neg (by simpa [Redis.sismember] using fun hx => ha (horigin.mp hx)), htrue]
    rfl

theorem drops_delUveDone (h : Indexed env db live) : Drops env db (delUveDone env db u) u := by
  unfold delUveDone
  constructor
  · intro a k x
    simp [mem_dropFromPartition h, and_assoc]
  · intro a t x
    simp [mem_dropFromPartition h, and_assoc]
  · intro p x
    simp [mem_dropFromPartition h]
  · intro o k
    simp [hget_dropFromPartition h]
  · intro s
    simp [Redis.del_hashes, dropFromPartition_hashes]

theorem kept_delUveDone (h : Indexed env db live) : Kept db (delUveDone env db u) := by
  unfold delUveDone
  constructor
  · intro g x
    simp [mem_dropFromPartition h]
  · intro x
    simp [mem_dropFromPartition h]
  · intro hnodup k
    exact Redis.nodup_srem _ _ _ k fun k => Redis.nodup_srem _ _ _ k fun k =>
      Redis.nodup_del _ _ k fun k => nodup_dropFromPartition hnodup k
  · intro hnodup k
    refine Redis.znodup_del _ _ k fun k => ?_
    rw [dropFromPartition_zmembers]
    exact hnodup k

theorem zmembers_delUveDone (o : String) :
    (delUveDone env db u).zmembers (redisKey .UVES o) = db.zmembers (redisKey .UVES o) := by
  simp [delUveDone, Redis.zmembers_del, dropFromPartition_zmembers]

theorem Kept.refl (db : Redis) : Kept db db := ⟨fun _ _ => .rfl, fun _ => .rfl, id, id⟩

theorem Kept.trans {db₁ db₂ db₃ : Redis} (h : Kept db₁ db₂) (h' : Kept db₂ db₃) :
    Kept db₁ db₃ where
  types g x := (h'.types g x).trans (h.types g x)
  ngenerators x := (h'.ngenerators x).trans (h.ngenerators x)
  nodup := h'.nodup ∘ h.nodup
  znodup := h'.znodup ∘ h.znodup

theorem kept_del_uves (s : String) : Kept db (db.del (redisKey .UVES s)) where
  types g x := by simp
  ngenerators x := by simp
  nodup h k := Redis.nodup_del _ _ k h
  znodup h k := Redis.znodup_del _ _ k h

/-- The inner loop takes out the structs of one generator and type with the
given keys. -/
theorem delUves_spec (g : Generator) (t : StructType) :
    ∀ (keys : List String) (db : Redis) (live : Set Uve), Indexed env db live → keys.Nodup →
      (∀ k ∈ keys, ∃ u ∈ live, u.gen = g ∧ u.typ = t ∧ u.key.text = k) →
      ∃ db', delUves g.sm t.name db keys = some db' ∧
        Indexed env db' {v | v ∈ live ∧ ¬(v.gen = g ∧ v.typ = t ∧ v.key.text ∈ keys)} ∧
        Kept db db' ∧
        ∀ o, db'.zmembers (redisKey .UVES o) = db.zmembers (redisKey .UVES o) := by
  intro keys
  induction keys with
  | nil =>
    intro db live h _ _
    refine ⟨db, rfl, ?_, Kept.refl db, fun _ => rfl⟩
    simpa using h
  | cons k keys ih =>
    intro db live h hnodup hlive
    obtain ⟨u, hu, rfl, rfl, rfl⟩ := hlive k List.mem_cons_self
    rw [List.nodup_cons] at hnodup
    obtain ⟨db', hrun, hindexed, hkept, huves⟩ := ih (delUveDone env db u) _
      (h.drop (drops_delUveDone h)) hnodup.2 (by
        intro l hl
        obtain ⟨v, hv, hg, ht, hk⟩ := hlive l (List.mem_cons_of_mem _ hl)
        exact ⟨v, ⟨hv, fun heq => hnodup.1 (by rwa [← heq, hk])⟩, hg, ht, hk⟩)
    refine ⟨db', ?_, ?_, (kept_delUveDone h).trans hkept, fun o => ?_⟩
    · rw [delUves, List.foldlM_cons, delUve_eq h hu]
      exact hrun
    · convert hindexed using 1
      ext v
      have hself : v.gen = u.gen ∧ v.typ = u.typ ∧ v.key.text = u.key.text ↔ v = u :=
        ⟨fun hv => Uve.eq_of_origin (Uve.originText_inj.mpr ⟨hv.1, hv.2.1⟩) hv.2.2,
          by rintro rfl; simp⟩
      simp only [Set.mem_ofPred_eq, List.mem_cons]
      tauto
    · rw [huves, zmembers_delUveDone]

/-- What is live without the structs of some types of a generator. -/
def withoutTypes (live : Set Uve) (g : Generator) (types : List String) : Set Uve :=
  {v | v ∈ live ∧ ¬(v.gen = g ∧ v.typ.name ∈ types)}

theorem Listed.keys {g : Generator} {t : StructType} (h : Listed db live) (k : String) :
    k ∈ db.zmembers (redisKey .UVES (g.sm ++ ":" ++ t.name)) ↔
      ∃ u ∈ live, u.gen = g ∧ u.typ = t ∧ u.key.text = k := by
  rw [h]
  have horigin : ∀ u : Uve, g.sm ++ ":" ++ t.name = u.originText ↔ u.gen = g ∧ u.typ = t := by
    intro u
    have h := @Uve.originText_inj ⟨g, t, u.key⟩ u
    rw [eq_comm (a := u.gen), eq_comm (a := u.typ)]
    exact h
  simp only [horigin, and_assoc, eq_comm (a := k)]

theorem Listed.del_uves {g : Generator} {t : StructType} (h : Listed db live) :
    Listed (db.del (redisKey .UVES (g.sm ++ ":" ++ t.name))) (withoutTypes live g [t.name]) := by
  intro o x
  rw [Redis.mem_del_zmembers, h]
  constructor
  · rintro ⟨⟨u, hu, rfl, rfl⟩, hne⟩
    refine ⟨u, ⟨hu, ?_⟩, rfl, rfl⟩
    rintro ⟨rfl, ht⟩
    rw [List.mem_singleton] at ht
    exact hne (by rw [Uve.originText, ht])
  · rintro ⟨u, ⟨hu, hne⟩, rfl, rfl⟩
    refine ⟨⟨u, hu, rfl, rfl⟩, fun heq => hne ?_⟩
    obtain ⟨hg, ht⟩ := (@Uve.originText_inj u ⟨g, t, u.key⟩).mp (redisKey_inj.mp heq).2
    exact ⟨hg, by rw [ht]; exact List.mem_singleton_self _⟩

theorem withoutTypes_cons (g : Generator) (v : String) (types : List String) :
    withoutTypes (withoutTypes live g [v]) g types = withoutTypes live g (v :: types) := by
  ext u
  simp only [withoutTypes, Set.mem_ofPred_eq, List.mem_cons]
  tauto

/-- The pairs of key and type a generator has for the given types. -/
def HasPairs (live : Set Uve) (g : Generator) (types : List String)
    (res : List (String × String)) : Prop :=
  res.Nodup ∧ ∀ k v, (k, v) ∈ res ↔
    v ∈ types ∧ ∃ u ∈ live, u.gen = g ∧ u.typ.name = v ∧ u.key.text = k

theorem HasPairs.cons {g : Generator} {t : StructType} {types keys : List String}
    {res : List (String × String)} (h : HasPairs (withoutTypes live g [t.name]) g types res)
    (ht : t.name ∉ types) (hnodup : keys.Nodup)
    (hkeys : ∀ k, k ∈ keys ↔ ∃ u ∈ live, u.gen = g ∧ u.typ = t ∧ u.key.text = k) :
    HasPairs live g (t.name :: types) (keys.map (·, t.name) ++ res) := by
  constructor
  · refine List.Nodup.append (hnodup.map fun _ _ hk => (Prod.mk.inj hk).1) h.1 ?_
    rintro ⟨k, v⟩ hk hres
    obtain ⟨_, _, hkv⟩ := List.mem_map.mp hk
    obtain ⟨_, rfl⟩ := Prod.mk.inj hkv
    exact ht ((h.2 _ _).mp hres).1
  · intro k v
    have hpair : (k, v) ∈ keys.map (·, t.name) ↔ k ∈ keys ∧ v = t.name := by
      simp only [List.mem_map, Prod.mk.injEq]
      constructor
      · rintro ⟨l, hl, rfl, rfl⟩
        exact ⟨hl, rfl⟩
      · rintro ⟨hk, rfl⟩
        exact ⟨k, hk, rfl, rfl⟩
    rw [List.mem_append, hpair, hkeys, h.2, List.mem_cons]
    constructor
    · rintro (⟨⟨u, hu, hg, rfl, hk⟩, rfl⟩ | ⟨hv, u, hu, hg, hname, hk⟩)
      · exact ⟨.inl rfl, u, hu, hg, rfl, hk⟩
      · exact ⟨.inr hv, u, hu.1, hg, hname, hk⟩
    · rintro ⟨rfl | hv, u, hu, hg, hname, hk⟩
      · exact .inl ⟨⟨u, hu, hg, StructType.ext hname, hk⟩, rfl⟩
      · refine .inr ⟨hv, u, ⟨hu, fun hout => ht ?_⟩, hg, hname, hk⟩
        rwa [← List.mem_singleton.mp hout.2, hname]

theorem delTypes_spec (g : Generator) :
    ∀ (types : List String) (db : Redis) (live : Set Uve), Indexed env db live →
      Listed db live → (∀ k, (db.zmembers k).Nodup) → types.Nodup →
      (∀ v ∈ types, ∃ t : StructType, v = t.name) →
      ∃ db' res, delTypes g.sm types db = some (db', res) ∧
        Indexed env db' (withoutTypes live g types) ∧
        Listed db' (withoutTypes live g types) ∧ Kept db db' ∧ HasPairs live g types res := by
  intro types
  induction types with
  | nil =>
    intro db live h hlisted _ _ _
    have hall : withoutTypes live g [] = live := by
      ext u
      simp [withoutTypes]
    refine ⟨db, [], rfl, ?_, ?_, Kept.refl db, List.nodup_nil, by simp⟩
    · rwa [hall]
    · rwa [hall]
  | cons v types ih =>
    intro db live h hlisted hznodup hnodup hnames
    obtain ⟨t, rfl⟩ := hnames v List.mem_cons_self
    rw [List.nodup_cons] at hnodup
    obtain ⟨db₁, hrun₁, hindexed₁, hkept₁, huves₁⟩ := delUves_spec g t
      (db.zmembers (redisKey .UVES (g.sm ++ ":" ++ t.name)))
      (db.del (redisKey .UVES (g.sm ++ ":" ++ t.name))) live (h.del rfl _) (hznodup _)
      (fun k hk => (hlisted.keys k).mp hk)
    -- the keys of the sorted set are all the keys of this type
    have hlive : {u | u ∈ live ∧ ¬(u.gen = g ∧ u.typ = t ∧ u.key.text ∈ db.zmembers
        (redisKey .UVES (g.sm ++ ":" ++ t.name)))} = withoutTypes live g [t.name] := by
      ext u
      simp only [withoutTypes, Set.mem_ofPred_eq, hlisted.keys, List.mem_singleton]
      refine and_congr_right fun hu => not_congr ⟨fun ⟨hg, ht, _⟩ => ⟨hg, by rw [ht]⟩, ?_⟩
      rintro ⟨hg, ht⟩
      exact ⟨hg, StructType.ext ht, u, hu, hg, StructType.ext ht, rfl⟩
    rw [hlive] at hindexed₁
    have hkept : Kept db db₁ := (kept_del_uves _).trans hkept₁
    have hlisted₁ : Listed db₁ (withoutTypes live g [t.name]) := by
      intro o x
      rw [huves₁]
      exact hlisted.del_uves o x
    obtain ⟨db', res, hrun, hindexed, hlisted', hkept', hres⟩ := ih db₁ _ hindexed₁ hlisted₁
      (hkept.znodup hznodup) hnodup.2 (fun w hw => hnames w (List.mem_cons_of_mem _ hw))
    rw [withoutTypes_cons] at hindexed hlisted'
    refine ⟨db', (db.zmembers (redisKey .UVES (g.sm ++ ":" ++ t.name))).map (·, t.name) ++ res,
      ?_, hindexed, hlisted', hkept.trans hkept', ?_⟩
    · rw [delTypes]
      change (delUves g.sm t.name _ (db.zmembers _)).bind _ = _
      rw [hrun₁, Option.bind_some, hrun]
      rfl
    · exact hres.cons hnodup.1 (hznodup _) hlisted.keys

/-- What delrequest returns and leaves, for any generator. -/
theorem delrequest_spec {s : Store} (h : Represents env db s) (g : Generator)
    (ngen_inst : String) :
    ∃ db' res, delrequest db g.sm (g.ngen_sm ngen_inst) = some (db', res) ∧
      Represents env db' (s.step (.delrequest g ngen_inst)) ∧ res.Nodup ∧
      ∀ k v, (k, v) ∈ res ↔ ∃ u ∈ s.live, u.gen = g ∧ u.typ.name = v ∧ u.key.text = k := by
  obtain ⟨db₁, res, hrun, hindexed, hlisted, hkept, hnodup, hpairs⟩ := delTypes_spec g
    (db.smembers (redisKey .TYPES g.sm)) db s.live h.indexed h.listed h.znodup (h.nodup _)
    (h.typeNames g.sm)
  -- the types of a generator are all types it has structs of
  have hlive : withoutTypes s.live g (db.smembers (redisKey .TYPES g.sm)) =
      (s.step (.delrequest g ngen_inst)).live := by
    ext v
    refine and_congr_right fun hv => not_congr ⟨And.left, fun hg => ⟨hg, ?_⟩⟩
    exact hg ▸ h.types v hv
  rw [hlive] at hindexed hlisted
  have hmem : ∀ k x, x ∈ ((db₁.del (redisKey .TYPES g.sm)).srem (redisKey .NGENERATORS "")
      (g.ngen_sm ngen_inst)).sets k ↔ (x ∈ db₁.sets k ∧ k ≠ redisKey .TYPES g.sm) ∧
        ¬(k = redisKey .NGENERATORS "" ∧ x = g.ngen_sm ngen_inst) := by
    intro k x
    rw [Redis.mem_srem, Redis.mem_del_sets]
  refine ⟨(db₁.del (redisKey .TYPES g.sm)).srem (redisKey .NGENERATORS "")
    (g.ngen_sm ngen_inst), res, ?_, ?_, hnodup, ?_⟩
  · rw [delrequest, hrun]
    rfl
  · constructor
    · have htypes : Indexed env (db₁.del (redisKey .TYPES g.sm))
          (s.step (.delrequest g ngen_inst)).live := hindexed.del rfl g.sm
      refine htypes.congr fun kind s hindex => ⟨?_, rfl⟩
      refine Redis.srem_sets_of_ne _ _ _ _ fun heq => ?_
      rw [(redisKey_inj.mp heq).1] at hindex
      cases hindex
    · intro o x
      rw [← hlisted]
      simp
    · intro v hv
      rw [hmem, hkept.types]
      refine ⟨⟨h.types v hv.1, fun heq => hv.2 ?_⟩, by simp⟩
      exact Generator.sm_inj.mp (redisKey_inj.mp heq).2
    · intro g' x hx
      rw [hmem, hkept.types] at hx
      exact h.typeNames g' x hx.1.1
    · intro x
      rw [hmem, hkept.ngenerators, h.ngenerators]
      simp [Store.step]
    · intro k
      exact Redis.nodup_srem _ _ _ k fun k => Redis.nodup_del _ _ k (hkept.nodup h.nodup)
    · intro k
      exact Redis.znodup_del _ _ k (hkept.znodup h.znodup)
  · intro k v
    rw [hpairs]
    refine ⟨And.right, fun hu => ⟨?_, hu⟩⟩
    obtain ⟨u, hu, rfl, rfl, -⟩ := hu
    exact h.types u hu

end DelRequest

-- ---------------------------------------------------------------------------
-- Registration
-- ---------------------------------------------------------------------------

section Registration

variable {env : UveEnv} {db : Redis} {s : Store}

/-- Nothing but NGENERATORS changes. -/
theorem Represents.registered {db' : Redis} (h : Represents env db s) {ngenerators : Set String}
    (hsets : ∀ kind s, kind ≠ .NGENERATORS →
      db'.sets (redisKey kind s) = db.sets (redisKey kind s))
    (hhashes : ∀ kind s, kind ≠ .NGENERATORS →
      db'.hashes (redisKey kind s) = db.hashes (redisKey kind s))
    (hz : ∀ kind s, kind ≠ .NGENERATORS →
      db'.zmembers (redisKey kind s) = db.zmembers (redisKey kind s))
    (hn : ∀ x, x ∈ db'.sets (redisKey .NGENERATORS "") ↔ x ∈ ngenerators)
    (hnodup : ∀ k, (db'.sets k).Nodup) (hznodup : ∀ k, (db'.zmembers k).Nodup) :
    Represents env db' { s with ngenerators } where
  indexed := h.indexed.congr fun kind t hindex =>
    have hne : kind ≠ .NGENERATORS := fun heq => by simp [heq, KeyKind.isIndex] at hindex
    ⟨hsets kind t hne, hhashes kind t hne⟩
  listed o x := by rw [hz _ _ (by simp), h.listed]
  types u hu := by
    rw [hsets _ _ (by simp)]
    exact h.types u hu
  typeNames g x hx := by
    rw [hsets _ _ (by simp)] at hx
    exact h.typeNames g x hx
  ngenerators := hn
  nodup := hnodup
  znodup := hznodup

theorem represents_seqnum (h : Represents env db s) (g : Generator) (ngen_inst : String) :
    Represents env (seqnum db g.sm (g.ngen_sm ngen_inst)).1 (s.step (.seqnum g ngen_inst)) := by
  refine h.registered (fun kind t hne => ?_) (fun _ _ _ => rfl) (fun _ _ _ => rfl) (fun x => ?_)
    (fun k => Redis.nodup_sadd _ _ _ k h.nodup) h.znodup
  · exact Redis.sadd_sets_of_ne _ _ _ _ fun heq => hne (redisKey_inj.mp heq).1
  · change x ∈ (db.sadd _ _).sets _ ↔ _
    rw [Redis.mem_sadd, h.ngenerators]
    simp

theorem represents_expire (h : Represents env db s) :
    Represents env (db.del (redisKey .NGENERATORS "")) (s.step .expire) := by
  have hkey : ∀ {kind : KeyKind} {t : String}, kind ≠ .NGENERATORS →
      redisKey kind t ≠ redisKey .NGENERATORS "" := fun hne heq => hne (redisKey_inj.mp heq).1
  refine h.registered (fun kind t hne => ?_) (fun kind t hne => ?_) (fun kind t hne => ?_)
    (fun x => ?_) (fun k => Redis.nodup_del _ _ k h.nodup) (fun k => Redis.znodup_del _ _ k h.znodup)
  · exact Redis.del_sets_of_ne _ _ _ (hkey hne)
  · exact Redis.del_hashes_of_ne _ _ _ (hkey hne)
  · rw [Redis.zmembers_del, if_neg (hkey hne)]
  · simp

end Registration

-- ---------------------------------------------------------------------------
-- Every run
-- ---------------------------------------------------------------------------

section Runs

variable {env : UveEnv}

/-- Every script succeeds and changes the live structs as the store does. -/
theorem represents_step {db : Redis} {s : Store} (h : Represents env db s) (op : UveOp) :
    ∃ db', redisStep env db op = some db' ∧ Represents env db' (s.step op) := by
  cases op with
  | uveupdate u ngen_inst attr seq msg ts => exact ⟨_, rfl, represents_update h ngen_inst⟩
  | uvedelete u ngen_inst => exact ⟨_, rfl, represents_delete h ngen_inst⟩
  | delrequest g ngen_inst =>
    obtain ⟨db', res, hrun, hrep, -⟩ := delrequest_spec h g ngen_inst
    exact ⟨db', by rw [redisStep, hrun, Option.map_some], hrep⟩
  | seqnum g ngen_inst => exact ⟨_, rfl, represents_seqnum h g ngen_inst⟩
  | expire => exact ⟨_, rfl, represents_expire h⟩

theorem represents_run (ops : List UveOp) :
    ∀ {db : Redis} {s : Store}, Represents env db s →
      ∃ db', redisRun env db ops = some db' ∧ Represents env db' (ops.foldl Store.step s) := by
  induction ops with
  | nil =>
    intro db s h
    exact ⟨db, rfl, h⟩
  | cons op ops ih =>
    intro db s h
    obtain ⟨db₁, hstep, h₁⟩ := represents_step h op
    obtain ⟨db', hrun, h'⟩ := ih h₁
    refine ⟨db', ?_, h'⟩
    rw [redisRun, List.foldlM_cons, hstep]
    exact hrun

/-- The structs that are live after a sequence of operations. -/
def liveAfter (ops : List UveOp) : Set Uve := (ops.foldl Store.step .empty).live

/-- Every index has an entry for the struct, or none has. -/
structure Coherent (env : UveEnv) (db : Redis) (u : Uve) : Prop where
  origins : db.hgetall (redisKey .VALUES u.tableText) ≠ [] ↔
    db.sismember (redisKey (originsKind (env.isAlarm u.typ)) u.key.text) u.originText = true
  table : db.hgetall (redisKey .VALUES u.tableText) ≠ [] ↔
    db.sismember (redisKey (tableKind (env.isAlarm u.typ)) (tableOf u.key.text)) u.tableText = true
  uves : db.hgetall (redisKey .VALUES u.tableText) ≠ [] ↔
    u.key.text ∈ db.zmembers (redisKey .UVES u.originText)
  part : env.isAlarm u.typ = false → (db.hgetall (redisKey .VALUES u.tableText) ≠ [] ↔
    ∃ p, db.hget (redisKey .KEY2PART u.originText) u.key.text = some p ∧
      ∀ q, db.sismember (redisKey .PART2KEY q) u.partText = true ↔ q = p)

theorem Represents.coherent {db : Redis} {s : Store} (h : Represents env db s) (u : Uve) :
    Coherent env db u := by
  have hlive : db.hgetall (redisKey .VALUES u.tableText) ≠ [] ↔ u ∈ s.live := h.indexed.values u
  constructor
  · rw [hlive, Redis.sismember, decide_eq_true_iff, h.indexed.origins]
    refine ⟨fun hu => ⟨u, hu, rfl, rfl, rfl⟩, ?_⟩
    rintro ⟨v, hv, -, hk, ho⟩
    rwa [Uve.eq_of_origin ho hk]
  · rw [hlive, Redis.sismember, decide_eq_true_iff, h.indexed.table]
    refine ⟨fun hu => ⟨u, hu, rfl, rfl, rfl⟩, ?_⟩
    rintro ⟨v, hv, -, -, ht⟩
    rwa [Uve.tableText_inj.mp ht]
  · rw [hlive, h.listed]
    refine ⟨fun hu => ⟨u, hu, rfl, rfl⟩, ?_⟩
    rintro ⟨v, hv, ho, hk⟩
    rwa [Uve.eq_of_origin ho hk]
  · intro ha
    rw [hlive]
    constructor
    · intro hu
      refine ⟨env.part u.key, h.indexed.hget_of_live hu ha, fun q => ?_⟩
      rw [Redis.sismember, decide_eq_true_iff, h.indexed.part2key]
      refine ⟨?_, fun hq => ⟨u, hu, ha, hq, rfl⟩⟩
      rintro ⟨v, -, -, hq, hx⟩
      rw [hq, Uve.partText_inj.mp hx]
    · rintro ⟨p, hp, -⟩
      obtain ⟨v, hv, -, ho, hk, -⟩ := (h.indexed.key2part _ _ _).mp hp
      rwa [Uve.eq_of_origin ho hk]

/-- No index mentions the struct. -/
structure Absent (db : Redis) (u : Uve) : Prop where
  values : db.hgetall (redisKey .VALUES u.tableText) = []
  origins : ∀ a, db.sismember (redisKey (originsKind a) u.key.text) u.originText = false
  table : ∀ a t, db.sismember (redisKey (tableKind a) t) u.tableText = false
  uves : u.key.text ∉ db.zmembers (redisKey .UVES u.originText)
  key2part : db.hget (redisKey .KEY2PART u.originText) u.key.text = none
  part2key : ∀ q, db.sismember (redisKey .PART2KEY q) u.partText = false

theorem Represents.absent {db : Redis} {s : Store} (h : Represents env db s) {u : Uve}
    (hu : u ∉ s.live) : Absent db u := by
  constructor
  · exact not_not.mp fun hne => hu ((h.indexed.values u).mp hne)
  · intro a
    rw [Redis.sismember, decide_eq_false_iff_not, h.indexed.origins]
    rintro ⟨v, hv, -, hk, ho⟩
    exact hu (Uve.eq_of_origin ho hk ▸ hv)
  · intro a t
    rw [Redis.sismember, decide_eq_false_iff_not, h.indexed.table]
    rintro ⟨v, hv, -, -, ht⟩
    exact hu (Uve.tableText_inj.mp ht ▸ hv)
  · rw [h.listed]
    rintro ⟨v, hv, ho, hk⟩
    exact hu (Uve.eq_of_origin ho hk ▸ hv)
  · exact h.indexed.hget_eq_none fun hlive => hu hlive.1
  · intro q
    rw [Redis.sismember, decide_eq_false_iff_not, h.indexed.part2key]
    rintro ⟨v, hv, -, -, hx⟩
    exact hu (Uve.partText_inj.mp hx ▸ hv)

/-- From an empty database every sequence of scripts and expiries runs through,
and the indexes agree with the hashes on every struct. A delrequest then returns
every struct of its generator once and leaves none of them in any index. -/
theorem index_coherence (env : UveEnv) (ops : List UveOp) :
    ∃ db, redisRun env .empty ops = some db ∧
      (∀ u, Coherent env db u ∧
        (db.hgetall (redisKey .VALUES u.tableText) ≠ [] ↔ u ∈ liveAfter ops)) ∧
      ∀ (g : Generator) (ngen_inst : String), ∃ db' res,
        delrequest db g.sm (g.ngen_sm ngen_inst) = some (db', res) ∧
        (∀ u : Uve, u.gen = g → Absent db' u) ∧ res.Nodup ∧
        ∀ k v, (k, v) ∈ res ↔ ∃ u : Uve, u.gen = g ∧ u.typ.name = v ∧ u.key.text = k ∧
          db.hgetall (redisKey .VALUES u.tableText) ≠ [] := by
  obtain ⟨db, hrun, h⟩ := represents_run ops (represents_empty env)
  refine ⟨db, hrun, fun u => ⟨h.coherent u, h.indexed.values u⟩, fun g ngen_inst => ?_⟩
  obtain ⟨db', res, hdel, h', hnodup, hpairs⟩ := delrequest_spec h g ngen_inst
  refine ⟨db', res, hdel, fun u hg => h'.absent fun hu => hu.2 hg, hnodup, fun k v => ?_⟩
  rw [hpairs]
  constructor
  · rintro ⟨u, hu, hg, ht, hk⟩
    exact ⟨u, hg, ht, hk, (h.indexed.values u).mpr hu⟩
  · rintro ⟨u, hg, ht, hk, hu⟩
    exact ⟨u, (h.indexed.values u).mp hu, hg, ht, hk⟩

end Runs

end TfAnalytics.Collector
