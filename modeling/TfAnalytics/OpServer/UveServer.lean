import TfAnalytics.Lib.OrderedMap
import TfAnalytics.Collector.UveStore
import Mathlib.Data.Finset.Insert
import Mathlib.Data.List.Infix
import Mathlib.Data.List.TakeWhile
import Mathlib.Data.String.Basic

/-!
# Analytics API — reading the UVE database

`UVEServer` (uveserver.py) reads what the collectors' scripts put into their
Redis instances. `get_part` takes the entries of a partition apart from the
left, `get_uve_list` those of a table from the right, because the key of a UVE
may contain the separator.

* `splitPart_partText` / `decode_tableText`: the cuts undo the scripts'
  concatenations;
* `mem_get_part` / `mem_instanceKeys`: one Redis instance;
* `reader_inverts_writer`: all instances of a server.
-/

namespace TfAnalytics.OpServer

open TfAnalytics.Lib
open TfAnalytics.Collector

-- ---------------------------------------------------------------------------
-- The server
-- ---------------------------------------------------------------------------

structure RedisInst where
  ip : String
  port : Nat
  redis_handle : Option Redis
  collector_pid : Option String

/-- `cfilt`: struct types with their attributes, or the text "UVEAlarms". -/
inductive ContentFilter where
  | uveAlarms
  | types (attrs : List (String × List String))

structure Filters where
  kfilt : Option (List String) := none
  sfilt : Option String := none
  mfilt : Option String := none
  cfilt : Option ContentFilter := none

/-- `regex_match filt key` is `get_uve_regex(filt).match(key)`; `uvedbcache` is the
cache's own `get_uve_list` (partition_handler.py). -/
structure UVEServer where
  _redis_uve_map : List RedisInst
  _usecache : Bool
  uvedbcache : String → Filters → Finset String
  regex_match : String → String → Bool

-- ---------------------------------------------------------------------------
-- get_part
-- ---------------------------------------------------------------------------

/-- Generator, key and type of each struct: `gen_uves[gen][key][typ]`. -/
abbrev GenUves := OrderedMap String (OrderedMap String (OrderedMap String Unit))

def addStruct (gen_uves : GenUves) (gen key typ : String) : GenUves :=
  let uves := (gen_uves.find? gen).getD .empty
  let types := (uves.find? key).getD .empty
  gen_uves.assign gen (uves.assign key (types.assign typ ()))

/-- `elems.split(":", 5)`, as generator, type and key; too few parts raise an
`IndexError`. -/
def splitPart (elems : String) : Option (String × String × String) := do
  let info := (splitMax ':' 5 elems.toList).map String.ofList
  let gen := (← info[0]?) ++ ":" ++ (← info[1]?) ++ ":" ++ (← info[2]?) ++ ":" ++ (← info[3]?)
  return (gen, ← info[4]?, ← info[5]?)

/-- An exception ends the loop; what was read so far is returned. -/
def readPart : List String → GenUves → GenUves
  | [], gen_uves => gen_uves
  | elems :: rest, gen_uves =>
    match splitPart elems with
    | none => gen_uves
    | some (gen, typ, key) => readPart rest (addStruct gen_uves gen key typ)

def get_part (part : String) (r_inst : RedisInst) : String × GenUves :=
  (r_inst.ip ++ ":" ++ toString r_inst.port,
    match r_inst.redis_handle with
    | none => .empty
    | some redish => readPart (redish.smembers (redisKey .PART2KEY part)) .empty)

-- ---------------------------------------------------------------------------
-- get_uve_list
-- ---------------------------------------------------------------------------

namespace UVEServer

def typeSelected (typ : String) : ContentFilter → Bool
  | .uveAlarms => typ.toList <:+: "UVEAlarms".toList
  | .types attrs => (attrs.lookup typ).isSome

/-- `tfilter[typ]`; the text "UVEAlarms" cannot be indexed by a type. -/
def attrFilter (typ : String) : ContentFilter → Option (List String)
  | .uveAlarms => none
  | .types attrs => attrs.lookup typ

/-- One entry of a table: the key it contributes, if it passes the filters. The
outer `none` is an exception. -/
def selectEntry (us : UVEServer) (redish : Redis) (table : String) (filters : Filters)
    (parse_afilter : Bool) (entry : String) : Option (Option String) := do
  let tail ← (splitMax ':' 1 entry.toList)[1]?
  let info := (rsplitMax ':' 5 tail).map String.ofList
  let uve_key ← info[0]?
  if let some kfilter := filters.kfilt then
    if kfilter.all fun filt => !us.regex_match filt uve_key then
      return none
  let src ← info[1]?
  if let some sfilter := filters.sfilt then
    if sfilter ≠ src then
      return none
  let module := (← info[2]?) ++ ":" ++ (← info[3]?) ++ ":" ++ (← info[4]?)
  if let some mfilter := filters.mfilt then
    if mfilter ≠ module then
      return none
  let typ ← info[5]?
  if let some tfilter := filters.cfilt then
    if !typeSelected typ tfilter then
      return none
    if parse_afilter then
      let attrs ← attrFilter typ tfilter
      let valkey := redisKey .VALUES
        (table ++ ":" ++ uve_key ++ ":" ++ src ++ ":" ++ module ++ ":" ++ typ)
      if attrs ≠ [] ∧ attrs.all fun afilter => (redish.hget valkey afilter).isNone then
        return none
  return some uve_key

/-- An exception ends the loop over the entries of one instance. -/
def addEntries (select : String → Option (Option String)) :
    List String → Finset String → Finset String
  | [], uve_list => uve_list
  | entry :: rest, uve_list =>
    match select entry with
    | none => uve_list
    | some none => addEntries select rest uve_list
    | some (some uve_key) => addEntries select rest (insert uve_key uve_list)

/-- The entries of the alarm table and, unless only alarms are asked for, of the
UVE table. -/
def tableEntries (redish : Redis) (table : String) (filters : Filters) : List String :=
  match filters.cfilt with
  | some .uveAlarms => redish.smembers (redisKey .ALARM_TABLE table)
  | _ => redish.smembers (redisKey .ALARM_TABLE table) ∪ redish.smembers (redisKey .TABLE table)

def get_uve_list (us : UVEServer) (table : String) (filters : Filters) (parse_afilter : Bool) :
    Finset String :=
  if (filters.sfilt.getD "").isEmpty && (filters.mfilt.getD "").isEmpty && us._usecache then
    us.uvedbcache table filters
  else
    us._redis_uve_map.foldl
      (fun uve_list r_inst =>
        match r_inst.redis_handle, r_inst.collector_pid with
        | some redish, some _ =>
          addEntries (us.selectEntry redish table filters parse_afilter)
            (tableEntries redish table filters) uve_list
        | _, _ => uve_list) ∅

end UVEServer

-- ---------------------------------------------------------------------------
-- Taking the entries apart
-- ---------------------------------------------------------------------------

theorem map_ofList_fields (u : Uve) : u.fields.map String.ofList =
    [u.gen.source, u.gen.node_type, u.gen.module, u.gen.instance_id, u.typ.name] := by
  simp [Uve.fields, Generator.fields]

theorem splitPart_partText (u : Uve) :
    splitPart u.partText = some (u.gen.sm, u.typ.name, u.key.text) := by
  have hcut : splitMax ':' 5 u.partText.toList = u.fields ++ [u.key.text.toList] := by
    rw [Uve.partText_toList]
    exact splitMax_joinBefore u.colonFree_fields _
  unfold splitPart
  rw [hcut, List.map_append, map_ofList_fields]
  simp [Generator.sm]

/-- The key without its table. -/
def bareKey (key : String) : String := String.ofList ((key.toList.dropWhile (· ≠ ':')).drop 1)

theorem tableOf_colonFree (key : String) : ':' ∉ (tableOf key).toList := by
  intro hmem
  rw [tableOf, String.toList_ofList] at hmem
  simpa using List.mem_takeWhile_imp hmem

theorem key_toList (k : UveKey) :
    k.text.toList = (tableOf k.text).toList ++ ':' :: (bareKey k.text).toList := by
  rw [tableOf, bareKey, String.toList_ofList, String.toList_ofList]
  have hcolon : ∀ l : List Char, ':' ∈ l →
      l.dropWhile (· ≠ ':') = ':' :: (l.dropWhile (· ≠ ':')).drop 1 := by
    intro l hl
    induction l with
    | nil => cases hl
    | cons c l ih =>
      by_cases hc : c = ':'
      · simp [hc]
      · rw [List.dropWhile_cons_of_pos (by simpa using hc)]
        exact ih (List.mem_of_ne_of_mem (Ne.symm hc) hl)
  rw [← hcolon _ k.hasColon, List.takeWhile_append_dropWhile]

theorem key_text (k : UveKey) : k.text = tableOf k.text ++ ":" ++ bareKey k.text := by
  rw [← String.toList_inj, String.toList_append, String.toList_append]
  simpa using key_toList k

/-- First the table is cut off on the left, then the fields on the right. -/
theorem decode_tableText (u : Uve) :
    ∃ tail, (splitMax ':' 1 u.tableText.toList)[1]? = some tail ∧
      (rsplitMax ':' 5 tail).map String.ofList = [bareKey u.key.text, u.gen.source,
        u.gen.node_type, u.gen.module, u.gen.instance_id, u.typ.name] := by
  refine ⟨joinAfter ':' (bareKey u.key.text).toList u.fields, ?_, ?_⟩
  · have hsplit : u.tableText.toList = joinBefore ':' [(tableOf u.key.text).toList]
        (joinAfter ':' (bareKey u.key.text).toList u.fields) := by
      rw [Uve.tableText_toList, key_toList]
      simp [joinBefore, joinAfter, Uve.fields, Generator.fields]
    have hfree : ∀ f ∈ [(tableOf u.key.text).toList], ':' ∉ f := by
      simpa using tableOf_colonFree u.key.text
    have hcut := splitMax_joinBefore hfree (joinAfter ':' (bareKey u.key.text).toList u.fields)
    rw [hsplit]
    exact congrArg (·[1]?) hcut
  · have hcut := rsplitMax_joinAfter u.colonFree_fields (bareKey u.key.text).toList
    change rsplitMax ':' 5 _ = _ at hcut
    rw [hcut, List.map_cons, map_ofList_fields, String.ofList_toList]

theorem selectEntry_tableText (us : UVEServer) (redish : Redis) (table : String)
    (parse_afilter : Bool) (u : Uve) :
    us.selectEntry redish table {} parse_afilter u.tableText = some (some (bareKey u.key.text)) := by
  obtain ⟨tail, htail, hinfo⟩ := decode_tableText u
  unfold UVEServer.selectEntry
  rw [htail, Option.bind_eq_bind, Option.bind_some, hinfo]
  rfl

-- ---------------------------------------------------------------------------
-- One instance
-- ---------------------------------------------------------------------------

/-- `gen_uves[gen][key]`. -/
def typesOf (gen_uves : GenUves) (gen key : String) : OrderedMap String Unit :=
  (((gen_uves.find? gen).getD .empty).find? key).getD .empty

/-- `typ in gen_uves[gen][key]`. -/
def HasStruct (gen_uves : GenUves) (gen key typ : String) : Prop :=
  (typesOf gen_uves gen key).find? typ = some ()

theorem typesOf_addStruct (gen_uves : GenUves) (gen key typ g k : String) :
    typesOf (addStruct gen_uves gen key typ) g k =
      if g = gen ∧ k = key then (typesOf gen_uves gen key).assign typ ()
      else typesOf gen_uves g k := by
  unfold typesOf addStruct
  rw [OrderedMap.find?_assign]
  by_cases hg : g = gen
  · rw [if_pos hg, Option.getD_some, OrderedMap.find?_assign]
    by_cases hk : k = key
    · rw [if_pos hk, if_pos ⟨hg, hk⟩, Option.getD_some]
    · rw [if_neg hk, if_neg (fun h => hk h.2), hg]
  · rw [if_neg hg, if_neg (fun h => hg h.1)]

theorem hasStruct_addStruct (gen_uves : GenUves) (gen key typ g k t : String) :
    HasStruct (addStruct gen_uves gen key typ) g k t ↔
      HasStruct gen_uves g k t ∨ (g = gen ∧ k = key ∧ t = typ) := by
  unfold HasStruct
  rw [typesOf_addStruct]
  by_cases hgk : g = gen ∧ k = key
  · obtain ⟨rfl, rfl⟩ := hgk
    rw [if_pos ⟨rfl, rfl⟩, OrderedMap.find?_assign]
    by_cases ht : t = typ <;> simp [ht]
  · rw [if_neg hgk]
    exact ⟨.inl, fun h => h.resolve_right fun ht => hgk ⟨ht.1, ht.2.1⟩⟩

/-- When no entry raises an exception, all of them are read. -/
theorem hasStruct_readPart_of_split (g k t : String) (entries : List String) :
    ∀ gen_uves, (∀ e ∈ entries, (splitPart e).isSome = true) →
      (HasStruct (readPart entries gen_uves) g k t ↔
        HasStruct gen_uves g k t ∨ ∃ e ∈ entries, splitPart e = some (g, t, k)) := by
  induction entries with
  | nil =>
    intro gen_uves _
    simp [readPart]
  | cons e rest ih =>
    intro gen_uves hentries
    obtain ⟨⟨gen, typ, key⟩, he⟩ := Option.isSome_iff_exists.mp (hentries e List.mem_cons_self)
    have hrest : ∀ e ∈ rest, (splitPart e).isSome = true :=
      fun e he => hentries e (List.mem_cons_of_mem _ he)
    rw [readPart, he]
    simp only []
    rw [ih _ hrest, hasStruct_addStruct, or_assoc]
    simp only [List.mem_cons, exists_eq_or_imp, he, Option.some.injEq, Prod.mk.injEq]
    refine or_congr_right (or_congr_left ⟨?_, ?_⟩)
    · rintro ⟨rfl, rfl, rfl⟩
      exact ⟨rfl, rfl, rfl⟩
    · rintro ⟨rfl, rfl, rfl⟩
      exact ⟨rfl, rfl, rfl⟩

/-- When every entry is that of a struct, all of them are read. -/
theorem hasStruct_readPart (g k t : String) (entries : List String) (gen_uves : GenUves)
    (hentries : ∀ e ∈ entries, ∃ u : Uve, e = u.partText) :
    HasStruct (readPart entries gen_uves) g k t ↔ HasStruct gen_uves g k t ∨
      ∃ u : Uve, u.partText ∈ entries ∧ g = u.gen.sm ∧ k = u.key.text ∧ t = u.typ.name := by
  rw [hasStruct_readPart_of_split]
  · refine or_congr_right ⟨?_, ?_⟩
    · rintro ⟨e, he, hsplit⟩
      obtain ⟨u, rfl⟩ := hentries e he
      rw [splitPart_partText, Option.some.injEq, Prod.mk.injEq, Prod.mk.injEq] at hsplit
      exact ⟨u, he, hsplit.1.symm, hsplit.2.2.symm, hsplit.2.1.symm⟩
    · rintro ⟨u, hu, rfl, rfl, rfl⟩
      exact ⟨u.partText, hu, splitPart_partText u⟩
  · intro e he
    obtain ⟨u, rfl⟩ := hentries e he
    rw [splitPart_partText]
    rfl

/-- An entry can be taken apart when it has five separators. -/
theorem splitPart_isSome_iff (elems : String) :
    (splitPart elems).isSome = true ↔ 5 ≤ elems.toList.count ':' := by
  have hlen := length_splitMax ':' 5 elems.toList
  unfold splitPart
  generalize splitMax ':' 5 elems.toList = parts at hlen ⊢
  simp only [List.getElem?_map, Option.bind_eq_bind, Option.pure_def]
  constructor
  · intro hsome
    obtain ⟨r, hr⟩ := Option.isSome_iff_exists.mp hsome
    simp only [Option.bind_eq_some_iff] at hr
    obtain ⟨-, -, -, -, -, -, -, -, -, -, part, hpart, -⟩ := hr
    obtain ⟨part, hpart, -⟩ := Option.map_eq_some_iff.mp hpart
    obtain ⟨hlt, -⟩ := List.getElem?_eq_some_iff.mp hpart
    omega
  · intro hmany
    have hsix : parts.length = 6 := by omega
    obtain ⟨p0, p1, p2, p3, p4, p5, rfl⟩ : ∃ p0 p1 p2 p3 p4 p5, parts = [p0, p1, p2, p3, p4, p5] := by
      rcases parts with _ | ⟨p0, _ | ⟨p1, _ | ⟨p2, _ | ⟨p3, _ | ⟨p4, _ | ⟨p5, _ | ⟨p6, rest⟩⟩⟩⟩⟩⟩⟩
      all_goals first
        | exact ⟨p0, p1, p2, p3, p4, p5, rfl⟩
        | simp at hsix
    rfl

theorem mem_addEntries {select : String → Option (Option String)} (entries : List String) :
    ∀ uve_list : Finset String, (∀ e ∈ entries, ∃ k, select e = some (some k)) → ∀ k,
      (k ∈ UVEServer.addEntries select entries uve_list ↔
        k ∈ uve_list ∨ ∃ e ∈ entries, select e = some (some k)) := by
  induction entries with
  | nil =>
    intro uve_list _ k
    simp [UVEServer.addEntries]
  | cons e rest ih =>
    intro uve_list hselect k
    obtain ⟨l, hl⟩ := hselect e List.mem_cons_self
    rw [UVEServer.addEntries, hl]
    simp only []
    rw [ih _ fun e he => hselect e (List.mem_cons_of_mem _ he), Finset.mem_insert]
    simp only [List.mem_cons, exists_eq_or_imp, hl, Option.some.injEq, eq_comm (a := l)]
    tauto

/-- The databases that the scripts build. -/
def Reachable (env : UveEnv) (db : Redis) : Prop := ∃ ops, redisRun env .empty ops = some db

/-- The struct is stored. -/
def Live (db : Redis) (u : Uve) : Prop := db.hgetall (redisKey .VALUES u.tableText) ≠ []

section Instance

variable {env : UveEnv} {redish : Redis}

theorem Reachable.represents (h : Reachable env redish) :
    ∃ s, Represents env redish s ∧ ∀ u, Live redish u ↔ u ∈ s.live := by
  obtain ⟨ops, hops⟩ := h
  obtain ⟨db, hrun, hrep⟩ := represents_run ops (represents_empty env)
  obtain rfl := Option.some.inj (hops.symm.trans hrun)
  exact ⟨_, hrep, hrep.indexed.values⟩

theorem mem_get_part (h : Reachable env redish) (r_inst : RedisInst)
    (hinst : r_inst.redis_handle = some redish) (part g k t : String) :
    HasStruct (get_part part r_inst).2 g k t ↔
      ∃ u, Live redish u ∧ env.isAlarm u.typ = false ∧ env.part u.key = part ∧
        g = u.gen.sm ∧ k = u.key.text ∧ t = u.typ.name := by
  obtain ⟨s, hrep, hlive⟩ := h.represents
  have hentries := hrep.indexed.part2key part
  unfold get_part
  rw [hinst]
  simp only []
  rw [hasStruct_readPart]
  · constructor
    · rintro (hnone | ⟨u, hu, hgkt⟩)
      · simp [HasStruct, typesOf] at hnone
      · obtain ⟨v, hv, ha, hp, huv⟩ := (hentries _).mp hu
        rw [Uve.partText_inj.mp huv] at hgkt
        exact ⟨v, (hlive v).mpr hv, ha, hp.symm, hgkt⟩
    · rintro ⟨u, hu, ha, rfl, hgkt⟩
      exact .inr ⟨u, (hentries _).mpr ⟨u, (hlive u).mp hu, ha, rfl, rfl⟩, hgkt⟩
  · intro e he
    obtain ⟨u, -, -, -, rfl⟩ := (hentries e).mp he
    exact ⟨u, rfl⟩

theorem mem_tableEntries (h : Reachable env redish) (table e : String) :
    e ∈ UVEServer.tableEntries redish table {} ↔
      ∃ u, Live redish u ∧ tableOf u.key.text = table ∧ e = u.tableText := by
  obtain ⟨s, hrep, hlive⟩ := h.represents
  have halarm := hrep.indexed.table true table e
  have huve := hrep.indexed.table false table e
  change e ∈ redish.sets (redisKey .ALARM_TABLE table) ∪ redish.sets (redisKey .TABLE table) ↔ _
  rw [List.mem_union_iff]
  constructor
  · rintro (he | he)
    · obtain ⟨u, hu, -, ht, he⟩ := halarm.mp he
      exact ⟨u, (hlive u).mpr hu, ht.symm, he⟩
    · obtain ⟨u, hu, -, ht, he⟩ := huve.mp he
      exact ⟨u, (hlive u).mpr hu, ht.symm, he⟩
  · rintro ⟨u, hu, ht, he⟩
    cases ha : env.isAlarm u.typ with
    | true => exact .inl (halarm.mpr ⟨u, (hlive u).mp hu, ha.symm, ht.symm, he⟩)
    | false => exact .inr (huve.mpr ⟨u, (hlive u).mp hu, ha.symm, ht.symm, he⟩)

/-- The keys that one instance adds. -/
theorem mem_instanceKeys (h : Reachable env redish) (us : UVEServer) (table : String)
    (parse_afilter : Bool) (uve_list : Finset String) (k : String) :
    k ∈ UVEServer.addEntries (us.selectEntry redish table {} parse_afilter)
        (UVEServer.tableEntries redish table {}) uve_list ↔
      k ∈ uve_list ∨ ∃ u, Live redish u ∧ tableOf u.key.text = table ∧
        u.key.text = table ++ ":" ++ k := by
  have hselect := selectEntry_tableText us redish table parse_afilter
  rw [mem_addEntries]
  · refine or_congr_right ⟨?_, ?_⟩
    · rintro ⟨e, he, hk⟩
      obtain ⟨u, hu, rfl, rfl⟩ := (mem_tableEntries h table e).mp he
      rw [hselect, Option.some.injEq, Option.some.injEq] at hk
      exact ⟨u, hu, rfl, by rw [← hk]; exact key_text u.key⟩
    · rintro ⟨u, hu, rfl, hk⟩
      refine ⟨u.tableText, (mem_tableEntries h _ _).mpr ⟨u, hu, rfl, rfl⟩, ?_⟩
      rw [hselect, ← String.append_right_inj (tableOf u.key.text ++ ":")  |>.mp
        ((key_text u.key).symm.trans hk)]
  · intro e he
    obtain ⟨u, -, -, rfl⟩ := (mem_tableEntries h table e).mp he
    exact ⟨_, hselect u⟩

end Instance

-- ---------------------------------------------------------------------------
-- All instances
-- ---------------------------------------------------------------------------

/-- The instances that are connected and whose collector is known. -/
def RedisInst.Serves (r_inst : RedisInst) (redish : Redis) : Prop :=
  r_inst.redis_handle = some redish ∧ r_inst.collector_pid ≠ none

theorem mem_get_uve_list {env : UveEnv} {us : UVEServer}
    (hreach : ∀ r_inst ∈ us._redis_uve_map, ∀ redish, r_inst.redis_handle = some redish →
      Reachable env redish) (hcache : us._usecache = false) (table : String)
    (parse_afilter : Bool) (k : String) :
    k ∈ us.get_uve_list table {} parse_afilter ↔
      ∃ r_inst ∈ us._redis_uve_map, ∃ redish, r_inst.Serves redish ∧
        ∃ u, Live redish u ∧ tableOf u.key.text = table ∧ u.key.text = table ++ ":" ++ k := by
  -- the loop over the instances adds the keys of each
  have hloop : ∀ (insts : List RedisInst) (uve_list : Finset String),
      (∀ r_inst ∈ insts, ∀ redish, r_inst.redis_handle = some redish → Reachable env redish) →
      (k ∈ insts.foldl
        (fun uve_list r_inst =>
          match r_inst.redis_handle, r_inst.collector_pid with
          | some redish, some _ =>
            UVEServer.addEntries (us.selectEntry redish table {} parse_afilter)
              (UVEServer.tableEntries redish table {}) uve_list
          | _, _ => uve_list) uve_list ↔
        k ∈ uve_list ∨ ∃ r_inst ∈ insts, ∃ redish, r_inst.Serves redish ∧
          ∃ u, Live redish u ∧ tableOf u.key.text = table ∧
            u.key.text = table ++ ":" ++ k) := by
    intro insts
    induction insts with
    | nil => simp
    | cons r_inst rest ih =>
      intro uve_list hinsts
      rw [List.foldl_cons, ih _ fun i hi => hinsts i (List.mem_cons_of_mem _ hi)]
      simp only [List.mem_cons, exists_eq_or_imp, RedisInst.Serves]
      cases hhandle : r_inst.redis_handle with
      | none => simp
      | some redish =>
        cases hpid : r_inst.collector_pid with
        | none => simp
        | some pid =>
          simp only [mem_instanceKeys (hinsts r_inst List.mem_cons_self redish hhandle) us table
            parse_afilter uve_list k, or_assoc, Option.some.injEq, ne_eq, reduceCtorEq,
            not_false_eq_true, and_true, exists_eq_left']
  unfold UVEServer.get_uve_list
  rw [hcache, Bool.and_false, if_neg Bool.false_ne_true, hloop _ _ hreach]
  simp

/-- Reading back what the scripts wrote: the structs of a partition and the keys of
a table are exactly the stored ones, whatever the keys contain. -/
theorem reader_inverts_writer (env : UveEnv) (us : UVEServer) (hcache : us._usecache = false)
    (hreach : ∀ r_inst ∈ us._redis_uve_map, ∀ redish, r_inst.redis_handle = some redish →
      Reachable env redish) :
    (∀ r_inst ∈ us._redis_uve_map, ∀ redish, r_inst.redis_handle = some redish →
      ∀ part gen key typ, HasStruct (get_part part r_inst).2 gen key typ ↔
        ∃ u, Live redish u ∧ env.isAlarm u.typ = false ∧ env.part u.key = part ∧
          gen = u.gen.sm ∧ key = u.key.text ∧ typ = u.typ.name) ∧
    ∀ table parse_afilter k, k ∈ us.get_uve_list table {} parse_afilter ↔
      ∃ r_inst ∈ us._redis_uve_map, ∃ redish, r_inst.Serves redish ∧
        ∃ u, Live redish u ∧ tableOf u.key.text = table ∧ u.key.text = table ++ ":" ++ k :=
  ⟨fun r_inst hr redish hredish part gen key typ =>
      mem_get_part (hreach r_inst hr redish hredish) r_inst hredish part gen key typ,
    mem_get_uve_list hreach hcache⟩

section Sample

def sampleUve : Uve where
  gen := ⟨"h", "n", "m", "0", by decide⟩
  typ := ⟨"T", by decide⟩
  key := ⟨"vn:a:b", by decide⟩

def sampleEnv : UveEnv := ⟨fun _ => "3", fun _ => false, fun _ => []⟩

def sampleDb : Redis :=
  (UVEUpdate sampleEnv (seqnum .empty sampleUve.gen.sm (sampleUve.gen.ngen_sm "0")).1 sampleUve "0"
    "x" 1 ⟨"<x/>", by decide⟩ 5).1

def sampleUveServer : UVEServer where
  _redis_uve_map := [⟨"10.0.0.1", 6379, some sampleDb, some "h:n:collector:7"⟩]
  _usecache := false
  uvedbcache _ _ := ∅
  regex_match _ _ := true

theorem reader_inverts_writer_sample :
    "a:b" ∈ sampleUveServer.get_uve_list "vn" {} false ∧
      HasStruct (get_part "3" ⟨"10.0.0.1", 6379, some sampleDb, some "h:n:collector:7"⟩).2
        "h:n:m:0" "vn:a:b" "T" := by
  have hops : Reachable sampleEnv sampleDb :=
    ⟨[.seqnum sampleUve.gen "0", .uveupdate sampleUve "0" "x" 1 ⟨"<x/>", by decide⟩ 5], rfl⟩
  have hlive : Live sampleDb sampleUve := by
    unfold Live
    decide
  have hread := reader_inverts_writer sampleEnv sampleUveServer rfl (by
    intro r_inst hr redish hredish
    rw [List.mem_singleton.mp hr] at hredish
    exact Option.some.inj hredish ▸ hops)
  constructor
  · exact (hread.2 "vn" false "a:b").mpr ⟨_, List.mem_cons_self, sampleDb, ⟨rfl, nofun⟩, sampleUve,
      hlive, by decide, by decide⟩
  · exact (hread.1 _ List.mem_cons_self sampleDb rfl "3" _ _ _).mpr ⟨sampleUve, hlive, rfl, rfl,
      by decide, rfl, rfl⟩

end Sample

end TfAnalytics.OpServer
