import TfAnalytics.OpServer.UveStreamPart

/-!
# Analytics API — the cache of streamed UVEs

`UveCacheProcessor` (partition_handler.py) keeps the UVEs that the parts of a stream
report: their structs by table and name, the keys of each partition, and an index of
the names by struct type. `clear_partition` takes the UVEs of a partition out again.
`none` stands for an exception.

A set of Python is a list without repetitions, in the order of insertion.

* `store_uve_spec` / `clearKey_spec`: what is done to one UVE;
* `cacheInv_store` / `cacheInv_clear`: the keys of the partitions and the index by type
  stay in agreement with the UVEs.
-/

namespace TfAnalytics.OpServer

open TfAnalytics.Lib

variable {J : Type}

structure PartInfo where
  ip_address : String
  instance_id : String
  redis_ip : String
  redis_agg_db : Nat
  acq_time : Nat
  port : Nat
  deriving DecidableEq

/-- `__SOURCE__`. -/
structure UveSource where
  instance_id : String
  ip_address : String
  «partition» : Nat

def PartInfo.source (pi : PartInfo) (partno : Nat) : UveSource :=
  ⟨pi.instance_id, pi.ip_address, partno⟩

structure CachedUve (J : Type) where
  types : OrderedMap String J
  source : UveSource

/-- The names by table, for one type. -/
abbrev TableKeys := OrderedMap String (List String)

structure UveCacheProcessor (J : Type) where
  _partkeys : OrderedMap Nat (List String)
  _uvedb : OrderedMap String (OrderedMap String (CachedUve J))
  _typekeys : OrderedMap String TableKeys

def setAdd (x : String) (l : List String) : List String := if x ∈ l then l else l ++ [x]

namespace TableKeys

def barekeys (tables : TableKeys) (table : String) : List String := (tables.find? table).getD []

/-- A table goes with its last name. -/
def remove (tables : TableKeys) (table barekey : String) : TableKeys :=
  match tables.find? table with
  | none => tables
  | some bks =>
    let bks := bks.filter (· ≠ barekey)
    if bks.isEmpty then tables.erase table else tables.assign table bks

def add (tables : TableKeys) (table barekey : String) : TableKeys :=
  tables.assign table (setAdd barekey (tables.barekeys table))

/-- In `clear_partition` a type goes with its last table. -/
def clear (table barekey : String) (tables : TableKeys) : Option TableKeys :=
  if barekey ∈ tables.barekeys table then
    let tables := tables.remove table barekey
    if tables.isEmpty then none else some tables
  else some tables

end TableKeys

namespace UveCacheProcessor

def empty : UveCacheProcessor J := ⟨.empty, .empty, .empty⟩

variable (c : UveCacheProcessor J)

def partKeys (partno : Nat) : List String := (c._partkeys.find? partno).getD []

def tableUves (table : String) : OrderedMap String (CachedUve J) :=
  (c._uvedb.find? table).getD .empty

def uve (table barekey : String) : Option (CachedUve J) := (c.tableUves table).find? barekey

def typeTables (typ : String) : TableKeys := (c._typekeys.find? typ).getD .empty

/-- The UVE with one struct more, or less. -/
def storeType (uve : Option (CachedUve J)) (typ : String) (value : Option J) (source : UveSource) :
    CachedUve J :=
  let types := (uve.map CachedUve.types).getD .empty
  match value with
  | none => ⟨types.erase typ, source⟩
  | some value => ⟨types.assign typ value, source⟩

def store_uve (partno : Nat) (pi : PartInfo) (key : String) (typ : Option String)
    (value : Option J) : Option (UveCacheProcessor J) :=
  match splitKey key with
  | none => none
  | some (table, barekey) =>
    let keys := setAdd key (c.partKeys partno)
    match typ with
    | none => some
      { _partkeys := c._partkeys.assign partno (keys.filter (· ≠ table ++ ":" ++ barekey))
        _uvedb := c._uvedb.assign table ((c.tableUves table).erase barekey)
        _typekeys := c._typekeys.filterMapValues fun tables => some (tables.remove table barekey) }
    | some typ => some
      { _partkeys := c._partkeys.assign partno keys
        _uvedb := c._uvedb.assign table ((c.tableUves table).assign barekey
          (storeType (c.uve table barekey) typ value (pi.source partno)))
        _typekeys := c._typekeys.assign typ
          (match value with
          | none => (c.typeTables typ).remove table barekey
          | some _ => (c.typeTables typ).add table barekey) }

/-- `del self._uvedb[table][barekey]` fails if there is no such UVE. -/
def clearKey (key : String) : Option (UveCacheProcessor J) :=
  match splitKey key with
  | none => none
  | some (table, barekey) =>
    if (c.uve table barekey).isSome then some
      { c with
        _uvedb := c._uvedb.assign table ((c.tableUves table).erase barekey)
        _typekeys := c._typekeys.filterMapValues (TableKeys.clear table barekey) }
    else none

/-- The cache, and the keys that `clear_cb` is called with. -/
def clear_partition (partno : Nat) : Option (UveCacheProcessor J × List String) :=
  ((c.partKeys partno).foldlM clearKey c).map fun c' =>
    ({ c' with _partkeys := c'._partkeys.assign partno [] }, c.partKeys partno)

end UveCacheProcessor

-- ---------------------------------------------------------------------------
-- Keys
-- ---------------------------------------------------------------------------

theorem eq_of_splitKey {key table barekey : String} (h : splitKey key = some (table, barekey)) :
    key = table ++ ":" ++ barekey := by
  obtain ⟨⟨f, rest⟩, hsplit, heq⟩ := Option.map_eq_some_iff.mp h
  obtain ⟨rfl, rfl⟩ := Prod.mk.inj heq
  refine String.ext ?_
  rw [(eq_append_of_splitFirst hsplit).1]
  simp

theorem mem_setAdd {x y : String} {l : List String} : y ∈ setAdd x l ↔ y = x ∨ y ∈ l := by
  unfold setAdd
  split
  · rename_i hx
    refine ⟨Or.inr, ?_⟩
    rintro (rfl | hy)
    · exact hx
    · exact hy
  · rw [List.mem_append, List.mem_singleton, or_comm]

theorem nodup_setAdd {x : String} {l : List String} (h : l.Nodup) : (setAdd x l).Nodup := by
  unfold setAdd
  split
  · exact h
  · rename_i hx
    exact h.append (List.nodup_singleton x) (List.disjoint_singleton.mpr hx)

-- ---------------------------------------------------------------------------
-- The index by type
-- ---------------------------------------------------------------------------

namespace TableKeys

variable (tables : TableKeys) (table barekey : String) {t b : String}

theorem barekeys_remove : (tables.remove table barekey).barekeys t =
    if t = table then (tables.barekeys t).filter (· ≠ barekey) else tables.barekeys t := by
  unfold remove barekeys
  cases htable : tables.find? table with
  | none =>
    by_cases ht : t = table
    · simp [ht, htable]
    · simp [ht]
  | some bks =>
    by_cases hempty : (bks.filter (· ≠ barekey)).isEmpty = true
    · simp only [if_pos hempty, OrderedMap.find?_erase]
      split
      · rename_i ht
        rw [ht, htable, Option.getD_some, List.isEmpty_iff.mp hempty]
        rfl
      · rfl
    · simp only [if_neg hempty, OrderedMap.find?_assign]
      split
      · rename_i ht
        rw [ht, htable]
        rfl
      · rfl

theorem mem_remove : b ∈ (tables.remove table barekey).barekeys t ↔
    b ∈ tables.barekeys t ∧ ¬(t = table ∧ b = barekey) := by
  rw [barekeys_remove]
  by_cases ht : t = table <;> simp [ht]

theorem mem_add : b ∈ (tables.add table barekey).barekeys t ↔
    b ∈ tables.barekeys t ∨ (t = table ∧ b = barekey) := by
  unfold add barekeys
  rw [OrderedMap.find?_assign]
  by_cases ht : t = table
  · subst ht
    simp [mem_setAdd, or_comm]
  · simp [ht]

/-- A type that goes had no other names. -/
theorem mem_clear : b ∈ ((clear table barekey tables).getD .empty).barekeys t ↔
    b ∈ tables.barekeys t ∧ ¬(t = table ∧ b = barekey) := by
  unfold clear
  by_cases hmem : barekey ∈ tables.barekeys table
  · rw [if_pos hmem, ← mem_remove]
    by_cases hempty : (tables.remove table barekey).isEmpty = true
    · rw [if_pos hempty]
      rw [OrderedMap.isEmpty_iff] at hempty
      simp [barekeys, hempty]
    · rw [if_neg hempty]
      rfl
  · rw [if_neg hmem]
    refine ⟨fun hb => ⟨hb, ?_⟩, And.left⟩
    rintro ⟨rfl, rfl⟩
    exact hmem hb

end TableKeys

-- ---------------------------------------------------------------------------
-- What the operations do
-- ---------------------------------------------------------------------------

namespace UveCacheProcessor

variable {c : UveCacheProcessor J} {key table barekey : String}

/-- The UVEs after those of one table were replaced. -/
theorem uve_of_assign {c' : UveCacheProcessor J} {uves : OrderedMap String (CachedUve J)}
    (hdb : c'._uvedb = c._uvedb.assign table uves) (t b : String) :
    c'.uve t b = if t = table then uves.find? b else c.uve t b := by
  unfold uve tableUves
  rw [hdb, OrderedMap.find?_assign]
  split <;> rfl

/-- The index after the names of every type went through `g`, which takes away those in `P`. -/
theorem mem_typeTables_of_filterMapValues {c' : UveCacheProcessor J}
    {g : TableKeys → Option TableKeys} (hindex : c'._typekeys = c._typekeys.filterMapValues g)
    {t b : String} {P : Prop}
    (hg : ∀ tables : TableKeys, b ∈ ((g tables).getD .empty).barekeys t ↔
      b ∈ tables.barekeys t ∧ ¬P) (ty : String) :
    b ∈ (c'.typeTables ty).barekeys t ↔ b ∈ (c.typeTables ty).barekeys t ∧ ¬P := by
  unfold typeTables
  rw [hindex, OrderedMap.find?_filterMapValues]
  cases c._typekeys.find? ty with
  | none => simp [TableKeys.barekeys]
  | some tables => exact hg tables

variable (hsplit : splitKey key = some (table, barekey))
include hsplit

theorem store_uve_spec (partno : Nat) (pi : PartInfo) (typ : Option String) (value : Option J) :
    ∃ c', c.store_uve partno pi key typ value = some c' ∧
      (∀ p k, k ∈ c'.partKeys p ↔
        (p = partno ∧ k = key ∧ typ.isSome = true) ∨ (¬(p = partno ∧ k = key) ∧ k ∈ c.partKeys p)) ∧
      (∀ p, (c.partKeys p).Nodup → (c'.partKeys p).Nodup) ∧
      (∀ t b, c'.uve t b = if t = table ∧ b = barekey then
        typ.map fun typ => storeType (c.uve table barekey) typ value (pi.source partno)
        else c.uve t b) ∧
      ∀ ty t b, b ∈ (c'.typeTables ty).barekeys t ↔
        (t = table ∧ b = barekey ∧ typ = some ty ∧ value.isSome = true) ∨
          (b ∈ (c.typeTables ty).barekeys t ∧
            ¬(t = table ∧ b = barekey ∧ (typ = none ∨ typ = some ty))) := by
  have hkey := eq_of_splitKey hsplit
  -- without a type the whole UVE goes, and its key out of every type
  cases typ with
  | none =>
    refine ⟨_, by rw [store_uve, hsplit], fun p k => ?_, fun p hnodup => ?_, fun t b => ?_,
      fun ty t b => ?_⟩
    · by_cases hp : p = partno
      · subst hp
        simp only [partKeys, OrderedMap.find?_assign, if_true, Option.getD_some, ← hkey]
        by_cases hk : k = key <;> simp [hk, mem_setAdd]
      · simp [partKeys, OrderedMap.find?_assign, hp]
    · by_cases hp : p = partno
      · subst hp
        simp only [partKeys, OrderedMap.find?_assign, if_true, Option.getD_some]
        exact (nodup_setAdd hnodup).filter _
      · simpa [partKeys, OrderedMap.find?_assign, hp] using hnodup
    · rw [uve_of_assign rfl, OrderedMap.find?_erase]
      by_cases ht : t = table
      · by_cases hb : b = barekey <;> simp [ht, hb, uve]
      · simp [ht]
    · refine (mem_typeTables_of_filterMapValues (g := fun tables => some (tables.remove table barekey))
        rfl (fun tables => TableKeys.mem_remove tables table barekey) ty).trans ?_
      simp
  | some typ =>
    refine ⟨_, by rw [store_uve, hsplit], fun p k => ?_, fun p hnodup => ?_, fun t b => ?_,
      fun ty t b => ?_⟩
    · by_cases hp : p = partno
      · subst hp
        by_cases hk : k = key <;> simp [partKeys, OrderedMap.find?_assign, mem_setAdd, hk]
      · simp [partKeys, OrderedMap.find?_assign, hp]
    · by_cases hp : p = partno
      · subst hp
        simp only [partKeys, OrderedMap.find?_assign, if_true, Option.getD_some]
        exact nodup_setAdd hnodup
      · simpa [partKeys, OrderedMap.find?_assign, hp] using hnodup
    · rw [uve_of_assign rfl, OrderedMap.find?_assign]
      by_cases ht : t = table
      · by_cases hb : b = barekey <;> simp [ht, hb, uve]
      · simp [ht]
    · -- with one, only that type of it is stored, or taken out when it has no value
      by_cases hty : ty = typ
      · subst hty
        simp only [typeTables, OrderedMap.find?_assign, if_true, Option.getD_some]
        cases value with
        | none =>
          rw [TableKeys.mem_remove]
          simp
        | some v =>
          rw [TableKeys.mem_add]
          simp only [Option.isSome_some, reduceCtorEq, false_or, and_true]
          tauto
      · simp [typeTables, OrderedMap.find?_assign, hty, Ne.symm hty]

theorem clearKey_spec (hsome : (c.uve table barekey).isSome = true) :
    ∃ c', c.clearKey key = some c' ∧ c'._partkeys = c._partkeys ∧
      (∀ t b, c'.uve t b = if t = table ∧ b = barekey then none else c.uve t b) ∧
      ∀ ty t b, b ∈ (c'.typeTables ty).barekeys t ↔
        b ∈ (c.typeTables ty).barekeys t ∧ ¬(t = table ∧ b = barekey) := by
  have hclear : c.clearKey key = some
      { c with
        _uvedb := c._uvedb.assign table ((c.tableUves table).erase barekey)
        _typekeys := c._typekeys.filterMapValues (TableKeys.clear table barekey) } := by
    simp only [clearKey, hsplit, hsome, if_true]
  refine ⟨_, hclear, rfl, fun t b => ?_, fun ty t b => ?_⟩
  · rw [uve_of_assign rfl, OrderedMap.find?_erase]
    by_cases ht : t = table
    · by_cases hb : b = barekey <;> simp [ht, hb, uve]
    · simp [ht]
  · exact mem_typeTables_of_filterMapValues rfl (fun tables => TableKeys.mem_clear tables table barekey) ty

omit hsplit in
/-- Keys of cached UVEs are cleared one after another. -/
theorem foldlM_clearKey (keys : List String) (hnodup : keys.Nodup)
    (hkeys : ∀ key ∈ keys, ∃ table barekey, splitKey key = some (table, barekey) ∧
      (c.uve table barekey).isSome = true) :
    ∃ c', keys.foldlM clearKey c = some c' ∧ c'._partkeys = c._partkeys ∧
      (∀ t b, (∃ key ∈ keys, splitKey key = some (t, b)) → c'.uve t b = none) ∧
      (∀ t b, (∀ key ∈ keys, splitKey key ≠ some (t, b)) → c'.uve t b = c.uve t b) ∧
      ∀ ty t b, b ∈ (c'.typeTables ty).barekeys t ↔
        b ∈ (c.typeTables ty).barekeys t ∧ ∀ key ∈ keys, splitKey key ≠ some (t, b) := by
  induction keys generalizing c with
  | nil => exact ⟨c, rfl, rfl, fun t b => by simp, fun t b _ => rfl, fun ty t b => by simp⟩
  | cons key keys ih =>
    obtain ⟨hnot, hnodup⟩ := List.nodup_cons.mp hnodup
    obtain ⟨table, barekey, hsplit, hsome⟩ := hkeys key List.mem_cons_self
    obtain ⟨c₁, hc₁, hpart₁, huve₁, hindex₁⟩ := clearKey_spec hsplit hsome
    have hother : ∀ key' ∈ keys, splitKey key' ≠ some (table, barekey) := by
      intro key' hkey' hsplit'
      have hsame : key' = key := (eq_of_splitKey hsplit').trans (eq_of_splitKey hsplit).symm
      exact hnot (hsame ▸ hkey')
    have hpair : ∀ t b, splitKey key ≠ some (t, b) ↔ ¬(t = table ∧ b = barekey) := by
      intro t b
      rw [hsplit, ne_eq, Option.some.injEq, Prod.mk.injEq, eq_comm (a := table), eq_comm (a := barekey)]
    obtain ⟨c', hc', hpart, hgone, hkept, hindex⟩ := ih (c := c₁) hnodup (by
      intro key' hkey'
      obtain ⟨t, b, hsplit', hsome'⟩ := hkeys key' (List.mem_cons_of_mem key hkey')
      refine ⟨t, b, hsplit', ?_⟩
      rw [huve₁, if_neg]
      · exact hsome'
      · rintro ⟨rfl, rfl⟩
        exact hother key' hkey' hsplit')
    refine ⟨c', ?_, hpart.trans hpart₁, ?_, ?_, ?_⟩
    · rw [List.foldlM_cons, hc₁]
      exact hc'
    · rintro t b ⟨key', hkey', hsplit'⟩
      rcases List.mem_cons.mp hkey' with rfl | hkey'
      · obtain ⟨rfl, rfl⟩ := Prod.mk.inj (Option.some.inj (hsplit.symm.trans hsplit'))
        rw [hkept _ _ hother, huve₁, if_pos ⟨rfl, rfl⟩]
      · exact hgone t b ⟨key', hkey', hsplit'⟩
    · intro t b hnone
      rw [hkept t b fun key' hkey' => hnone key' (List.mem_cons_of_mem key hkey'), huve₁, if_neg]
      exact (hpair t b).mp (hnone key List.mem_cons_self)
    · intro ty t b
      rw [hindex, hindex₁, List.forall_mem_cons, hpair, and_assoc]

end UveCacheProcessor

-- ---------------------------------------------------------------------------
-- What the cache holds
-- ---------------------------------------------------------------------------

/-- The struct types that the cache has of a UVE, if it has the UVE. -/
def UveCacheProcessor.held (c : UveCacheProcessor J) (key : String) : Option (String → Bool) :=
  (splitKey key).bind fun split =>
    (c.uve split.1 split.2).map fun uve typ => (uve.types.find? typ).isSome

theorem UveCacheProcessor.held_of_splitKey {key table barekey : String}
    (hsplit : splitKey key = some (table, barekey)) (c : UveCacheProcessor J) :
    c.held key = (c.uve table barekey).map fun uve typ => (uve.types.find? typ).isSome := by
  rw [held, hsplit]
  rfl

/-- What an update does to the types that are held of its UVE. -/
def heldAfter (old : Option (String → Bool)) (typ : Option String) (value : Option J) :
    Option (String → Bool) :=
  typ.map fun typ => Function.update (old.getD fun _ => false) typ value.isSome

/-- The keys of the partitions and the index by type agree with the UVEs. `part` is the
partition of each key. -/
structure CacheInv (part : String → Nat) (c : UveCacheProcessor J) : Prop where
  nodup : ∀ p, (c.partKeys p).Nodup
  owner : ∀ p, ∀ key ∈ c.partKeys p, part key = p ∧ (splitKey key).isSome = true
  keys : ∀ key, (splitKey key).isSome = true → (key ∈ c.partKeys (part key) ↔ (c.held key).isSome = true)
  named : ∀ table barekey, (c.uve table barekey).isSome = true →
    splitKey (table ++ ":" ++ barekey) = some (table, barekey)
  index : ∀ typ table barekey, barekey ∈ (c.typeTables typ).barekeys table ↔
    ∃ uve, c.uve table barekey = some uve ∧ (uve.types.find? typ).isSome = true

section

variable {part : String → Nat} {c : UveCacheProcessor J}

theorem cacheInv_empty (part : String → Nat) : CacheInv part (.empty : UveCacheProcessor J) where
  nodup _ := List.nodup_nil
  owner p key hkey := absurd hkey List.not_mem_nil
  keys key hkey := by
    obtain ⟨⟨table, barekey⟩, hsplit⟩ := Option.isSome_iff_exists.mp hkey
    rw [UveCacheProcessor.held_of_splitKey hsplit]
    exact ⟨fun hmem => absurd hmem List.not_mem_nil, fun hsome => by cases hsome⟩
  named table barekey hsome := by cases hsome
  index typ table barekey := by
    refine ⟨fun hmem => absurd hmem List.not_mem_nil, ?_⟩
    rintro ⟨uve, huve, -⟩
    cases huve

/-- What is held of the UVEs after an update of one of them. -/
theorem held_of_store {c' : UveCacheProcessor J} {key table barekey : String}
    (hsplit : splitKey key = some (table, barekey)) {typ : Option String} {value : Option J}
    {source : UveSource}
    (huve : ∀ t b, c'.uve t b = if t = table ∧ b = barekey then
      typ.map fun typ => UveCacheProcessor.storeType (c.uve table barekey) typ value source
      else c.uve t b) (key' : String) :
    c'.held key' = if key' = key then heldAfter (c.held key) typ value else c.held key' := by
  cases hsplit' : splitKey key' with
  | none =>
    have hne : key' ≠ key := by
      rintro rfl
      rw [hsplit] at hsplit'
      cases hsplit'
    rw [if_neg hne, UveCacheProcessor.held, UveCacheProcessor.held, hsplit']
    rfl
  | some split =>
    obtain ⟨t, b⟩ := split
    rw [UveCacheProcessor.held_of_splitKey hsplit', UveCacheProcessor.held_of_splitKey hsplit',
      UveCacheProcessor.held_of_splitKey hsplit, huve]
    by_cases hsame : key' = key
    · obtain ⟨rfl, rfl⟩ := Prod.mk.inj (Option.some.inj (hsplit'.symm.trans (hsame ▸ hsplit)))
      rw [if_pos ⟨rfl, rfl⟩, if_pos hsame, heldAfter, Option.map_map]
      cases typ with
      | none => rfl
      | some typ =>
        refine congrArg some (funext fun ty => ?_)
        cases hold : c.uve t b <;> cases value <;> by_cases hty : ty = typ <;>
          simp [UveCacheProcessor.storeType, OrderedMap.find?_erase, OrderedMap.find?_assign, hty]
    · rw [if_neg hsame, if_neg]
      rintro ⟨rfl, rfl⟩
      exact hsame ((eq_of_splitKey hsplit').trans (eq_of_splitKey hsplit).symm)

/-- Storing an update of a key keeps the rest of the cache. -/
theorem cacheInv_store (h : CacheInv part c) {key : String}
    (hkey : (splitKey key).isSome = true) (pi : PartInfo) (typ : Option String) (value : Option J) :
    ∃ c', c.store_uve (part key) pi key typ value = some c' ∧ CacheInv part c' ∧
      (∀ key', c'.held key' = if key' = key then heldAfter (c.held key) typ value else c.held key') ∧
      ∀ t b uve, c'.uve t b = some uve →
        c.uve t b = some uve ∨ (t ++ ":" ++ b = key ∧ uve.source = pi.source (part key)) := by
  obtain ⟨⟨table, barekey⟩, hsplit⟩ := Option.isSome_iff_exists.mp hkey
  obtain ⟨c', hstore, hpart, hnodup, huve, hindex⟩ :=
    UveCacheProcessor.store_uve_spec (c := c) hsplit (part key) pi typ value
  have hname := eq_of_splitKey hsplit
  have hheld := held_of_store hsplit huve
  refine ⟨c', hstore, ⟨fun p => hnodup p (h.nodup p), fun p k hk => ?_, fun k hk => ?_, fun t b hsome => ?_,
    fun ty t b => ?_⟩, hheld, fun t b uve hnew => ?_⟩
  · -- the keys of the part, by their owner
    rcases (hpart p k).mp hk with ⟨rfl, rfl, -⟩ | ⟨-, hold⟩
    · exact ⟨rfl, hkey⟩
    · exact h.owner p k hold
  · rw [hpart, hheld]
    by_cases hsame : k = key
    · subst hsame
      simp [heldAfter]
    · rw [if_neg hsame, ← h.keys k hk]
      simp [hsame]
  · rw [huve] at hsome
    split at hsome
    · rename_i htb
      rw [htb.1, htb.2, ← hname]
      exact hsplit
    · exact h.named t b hsome
  · -- the index has the key under the type now, or no more, and the rest as before
    rw [hindex, huve, h.index]
    by_cases htb : t = table ∧ b = barekey
    · obtain ⟨rfl, rfl⟩ := htb
      rw [if_pos ⟨rfl, rfl⟩]
      cases typ with
      | none => simp
      | some typ =>
        by_cases hty : ty = typ
        · cases value <;>
            simp [UveCacheProcessor.storeType, OrderedMap.find?_erase, OrderedMap.find?_assign, hty]
        · have hne : typ ≠ ty := Ne.symm hty
          cases hold : c.uve t b <;> cases value <;>
            simp [UveCacheProcessor.storeType, OrderedMap.find?_erase, OrderedMap.find?_assign, hty, hne]
    · rw [if_neg htb]
      have hleft : ¬(t = table ∧ b = barekey ∧ typ = some ty ∧ value.isSome = true) :=
        fun hboth => htb ⟨hboth.1, hboth.2.1⟩
      have hright : ¬(t = table ∧ b = barekey ∧ (typ = none ∨ typ = some ty)) :=
        fun hboth => htb ⟨hboth.1, hboth.2.1⟩
      simp only [hleft, hright, false_or, not_false_eq_true, and_true]
  · rw [huve] at hnew
    split at hnew
    · rename_i htb
      -- the UVE is stored with the source that has reported it
      obtain ⟨typ, -, rfl⟩ := Option.map_eq_some_iff.mp hnew
      refine Or.inr ⟨?_, ?_⟩
      · rw [htb.1, htb.2, hname]
      · cases value <;> rfl
    · exact Or.inl hnew

/-- What is held of the UVEs after those of the keys of a partition are gone. -/
theorem CacheInv.held_of_clear (h : CacheInv part c) {p : Nat} {c' : UveCacheProcessor J}
    (hgone : ∀ t b, (∃ key ∈ c.partKeys p, splitKey key = some (t, b)) → c'.uve t b = none)
    (hkept : ∀ t b, (∀ key ∈ c.partKeys p, splitKey key ≠ some (t, b)) → c'.uve t b = c.uve t b)
    (key : String) : c'.held key = if part key = p then none else c.held key := by
  cases hsplit : splitKey key with
  | none => simp [UveCacheProcessor.held, hsplit]
  | some split =>
    obtain ⟨t, b⟩ := split
    have hmem := h.keys key (by rw [hsplit]; rfl)
    rw [UveCacheProcessor.held_of_splitKey hsplit, Option.isSome_map] at hmem
    rw [UveCacheProcessor.held_of_splitKey hsplit, UveCacheProcessor.held_of_splitKey hsplit]
    have hsame : ∀ key', splitKey key' = some (t, b) → key' = key := fun key' hsplit' =>
      (eq_of_splitKey hsplit').trans (eq_of_splitKey hsplit).symm
    split
    · rename_i hown
      have hnone : c'.uve t b = none := by
        by_cases hcached : key ∈ c.partKeys p
        · exact hgone t b ⟨key, hcached, hsplit⟩
        · have hnot : c.uve t b = none := by
            rw [hown] at hmem
            exact Option.not_isSome_iff_eq_none.mp (mt hmem.mpr hcached)
          rw [hkept t b, hnot]
          intro key' hkey' hsplit'
          exact hcached (hsame key' hsplit' ▸ hkey')
      rw [hnone]
      rfl
    · rename_i hown
      rw [hkept t b]
      intro key' hkey' hsplit'
      exact hown (hsame key' hsplit' ▸ (h.owner p key' hkey').1)

/-- Clearing a partition takes its UVEs away, and no others. -/
theorem cacheInv_clear (h : CacheInv part c) (p : Nat) :
    ∃ c', c.clear_partition p = some (c', c.partKeys p) ∧ CacheInv part c' ∧
      (∀ p', c'.partKeys p' = if p' = p then [] else c.partKeys p') ∧
      (∀ key, c'.held key = if part key = p then none else c.held key) ∧
      ∀ t b uve, c'.uve t b = some uve → c.uve t b = some uve := by
  obtain ⟨c₁, hclear, hpart₁, hgone, hkept, hindex⟩ :=
    UveCacheProcessor.foldlM_clearKey (c := c) (c.partKeys p) (h.nodup p) (by
      intro key hkey
      obtain ⟨hown, hsome⟩ := h.owner p key hkey
      obtain ⟨⟨table, barekey⟩, hsplit⟩ := Option.isSome_iff_exists.mp hsome
      refine ⟨table, barekey, hsplit, ?_⟩
      have hheld := (h.keys key hsome).mp (hown.symm ▸ hkey)
      rw [UveCacheProcessor.held_of_splitKey hsplit, Option.isSome_map] at hheld
      exact hheld)
  have hparts : ∀ p', ({ c₁ with _partkeys := c₁._partkeys.assign p [] } :
      UveCacheProcessor J).partKeys p' = if p' = p then [] else c.partKeys p' := by
    intro p'
    rw [UveCacheProcessor.partKeys, OrderedMap.find?_assign, hpart₁]
    split <;> rfl
  -- A UVE that is left is of another partition.
  have huves : ∀ t b uve, c₁.uve t b = some uve → c.uve t b = some uve := by
    intro t b uve huve
    by_cases hcleared : ∃ key ∈ c.partKeys p, splitKey key = some (t, b)
    · rw [hgone t b hcleared] at huve
      cases huve
    · rw [← hkept t b fun key hkey hsplit => hcleared ⟨key, hkey, hsplit⟩]
      exact huve
  have hheld : ∀ key, ({ c₁ with _partkeys := c₁._partkeys.assign p [] } :
      UveCacheProcessor J).held key = if part key = p then none else c.held key :=
    h.held_of_clear hgone hkept
  refine ⟨_, by rw [UveCacheProcessor.clear_partition, hclear]; rfl,
    ⟨fun p' => ?_, fun p' key hkey => ?_, fun key hkey => ?_, fun t b hsome => ?_, fun ty t b => ?_⟩,
    hparts, hheld, huves⟩
  · rw [hparts]
    split
    · exact List.nodup_nil
    · exact h.nodup p'
  · rw [hparts] at hkey
    split at hkey
    · cases hkey
    · exact h.owner p' key hkey
  · rw [hparts, hheld]
    split
    · simp
    · exact h.keys key hkey
  · obtain ⟨uve, huve⟩ := Option.isSome_iff_exists.mp hsome
    exact h.named t b (by rw [huves t b uve huve]; rfl)
  · refine (hindex ty t b).trans ?_
    rw [h.index]
    constructor
    · rintro ⟨⟨uve, huve, hty⟩, hother⟩
      exact ⟨uve, (hkept t b hother).trans huve, hty⟩
    · rintro ⟨uve, huve, hty⟩
      refine ⟨⟨uve, huves t b uve huve, hty⟩, fun key hkey hsplit => ?_⟩
      have hnone := hgone t b ⟨key, hkey, hsplit⟩
      rw [show c₁.uve t b = some uve from huve] at hnone
      cases hnone

end

-- ---------------------------------------------------------------------------
-- Runs of the cache
-- ---------------------------------------------------------------------------

inductive CacheCall (J : Type) where
  | store_uve (partno : Nat) (pi : PartInfo) (key : String) (typ : Option String) (value : Option J)
  | clear_partition (partno : Nat)

def UveCacheProcessor.step (c : UveCacheProcessor J) : CacheCall J → Option (UveCacheProcessor J)
  | .store_uve partno pi key typ value => c.store_uve partno pi key typ value
  | .clear_partition partno => (c.clear_partition partno).map Prod.fst

def cacheSystem (J : Type) : System (UveCacheProcessor J) (CacheCall J) :=
  ⟨.empty, UveCacheProcessor.step⟩

/-- The key is `table:barekey`, and is reported with its partition. -/
def CacheCall.OwnPart (part : String → Nat) : CacheCall J → Prop
  | .store_uve partno _ key _ _ => partno = part key ∧ (splitKey key).isSome = true
  | .clear_partition _ => True

/-- The two indexes say what the UVEs say. A table is a text without the separator. -/
structure IndexesAgree (c : UveCacheProcessor J) : Prop where
  by_type : ∀ typ table barekey, typ ≠ "__SOURCE__" →
    (barekey ∈ (c.typeTables typ).barekeys table ↔
      ∃ uve, c.uve table barekey = some uve ∧ (uve.types.find? typ).isSome = true)
  by_partition : ∀ p table barekey, ':' ∉ table.toList →
    (table ++ ":" ++ barekey ∈ c.partKeys p ↔
      ∃ uve, c.uve table barekey = some uve ∧ uve.source.partition = p)

/-- `clear_partition` calls back once for each key of `p`, and these keys go. -/
structure ClearsExactly (c : UveCacheProcessor J) (p : Nat) (c' : UveCacheProcessor J)
    (called : List String) : Prop where
  once : called.Nodup
  called_iff : ∀ key, key ∈ called ↔ key ∈ c.partKeys p
  partKeys : ∀ p', c'.partKeys p' = if p' = p then [] else c.partKeys p'
  uves : ∀ table barekey, ':' ∉ table.toList →
    c'.uve table barekey = if table ++ ":" ++ barekey ∈ called then none else c.uve table barekey

theorem splitKey_of_table {table : String} (h : ':' ∉ table.toList) (barekey : String) :
    splitKey (table ++ ":" ++ barekey) = some (table, barekey) := by
  have htext : (table ++ ":" ++ barekey).toList = table.toList ++ ':' :: barekey.toList := by simp
  rw [splitKey, htext, splitFirst_append h]
  simp

/-- The partition that is kept with a UVE is that of its key. -/
def SourceInv (part : String → Nat) (c : UveCacheProcessor J) : Prop :=
  ∀ table barekey uve, c.uve table barekey = some uve →
    uve.source.partition = part (table ++ ":" ++ barekey)

section

variable {part : String → Nat} {c : UveCacheProcessor J}

theorem cacheInv_step (h : CacheInv part c) (hsource : SourceInv part c) {call : CacheCall J}
    (hcall : call.OwnPart part) :
    ∃ c', c.step call = some c' ∧ CacheInv part c' ∧ SourceInv part c' := by
  cases call with
  | store_uve partno pi key typ value =>
    obtain ⟨rfl, hkey⟩ := hcall
    obtain ⟨c', hstore, hinv, -, huves⟩ := cacheInv_store h hkey pi typ value
    refine ⟨c', hstore, hinv, fun table barekey uve huve => ?_⟩
    rcases huves table barekey uve huve with hold | ⟨rfl, hpi⟩
    · exact hsource table barekey uve hold
    · rw [hpi]
      rfl
  | clear_partition partno =>
    obtain ⟨c', hclear, hinv, -, -, huves⟩ := cacheInv_clear h partno
    refine ⟨c', by rw [UveCacheProcessor.step, hclear]; rfl, hinv, fun table barekey uve huve => ?_⟩
    exact hsource table barekey uve (huves table barekey uve huve)

theorem cacheInv_run {calls : List (CacheCall J)} (h : CacheInv part c) (hsource : SourceInv part c)
    (hcalls : ∀ call ∈ calls, call.OwnPart part) :
    ∃ c', calls.foldlM UveCacheProcessor.step c = some c' ∧ CacheInv part c' ∧ SourceInv part c' := by
  induction calls generalizing c with
  | nil => exact ⟨c, rfl, h, hsource⟩
  | cons call calls ih =>
    obtain ⟨c₁, hstep, h₁, hsource₁⟩ := cacheInv_step h hsource (hcalls call List.mem_cons_self)
    obtain ⟨c', hrun, h', hsource'⟩ := ih h₁ hsource₁
      fun call' hcall' => hcalls call' (List.mem_cons_of_mem call hcall')
    refine ⟨c', ?_, h', hsource'⟩
    rw [List.foldlM_cons, hstep]
    exact hrun

theorem CacheInv.indexesAgree (h : CacheInv part c) (hsource : SourceInv part c) :
    IndexesAgree c where
  by_type typ table barekey _ := h.index typ table barekey
  by_partition p table barekey htable := by
    have hsplit := splitKey_of_table htable barekey
    have hkeys := h.keys _ (by rw [hsplit]; rfl)
    rw [UveCacheProcessor.held_of_splitKey hsplit, Option.isSome_map] at hkeys
    constructor
    · intro hmem
      obtain ⟨rfl, -⟩ := h.owner p _ hmem
      obtain ⟨uve, huve⟩ := Option.isSome_iff_exists.mp (hkeys.mp hmem)
      exact ⟨uve, huve, hsource table barekey uve huve⟩
    · rintro ⟨uve, huve, rfl⟩
      rw [hsource table barekey uve huve, hkeys, huve]
      rfl

theorem CacheInv.clearsExactly (h : CacheInv part c) (p : Nat) :
    ∃ c' called, c.clear_partition p = some (c', called) ∧ ClearsExactly c p c' called := by
  obtain ⟨c', hclear, hinv, hparts, hheld, huves⟩ := cacheInv_clear h p
  refine ⟨c', c.partKeys p, hclear, h.nodup p, fun key => Iff.rfl, hparts,
    fun table barekey htable => ?_⟩
  have hsplit := splitKey_of_table htable barekey
  have hsome : (splitKey (table ++ ":" ++ barekey)).isSome = true := by
    rw [hsplit]
    rfl
  have hkey := hheld (table ++ ":" ++ barekey)
  rw [UveCacheProcessor.held_of_splitKey hsplit, UveCacheProcessor.held_of_splitKey hsplit] at hkey
  by_cases hown : part (table ++ ":" ++ barekey) = p
  · rw [if_pos hown, Option.map_eq_none_iff] at hkey
    have hmem := h.keys _ hsome
    rw [hown, UveCacheProcessor.held_of_splitKey hsplit, Option.isSome_map] at hmem
    rw [hkey]
    split
    · rfl
    · rename_i hnot
      exact (Option.not_isSome_iff_eq_none.mp (mt hmem.mpr hnot)).symm
  · rw [if_neg hown] at hkey
    rw [if_neg fun hmem => hown (h.owner p _ hmem).1]
    cases hnew : c'.uve table barekey with
    | none =>
      rw [hnew] at hkey
      exact (Option.map_eq_none_iff.mp hkey.symm).symm
    | some uve => exact (huves table barekey uve hnew).symm

end

/-- Whatever is stored and cleared, each key with its own partition, no call fails and the
indexes agree; a partition that is cleared then gives up its keys and no others. -/
theorem cache_indexes_agree (part : String → Nat) (calls : List (CacheCall J))
    (hcalls : ∀ call ∈ calls, call.OwnPart part) :
    ∃ c, (cacheSystem J).run calls = some c ∧ IndexesAgree c ∧
      ∀ p, ∃ c' called, c.clear_partition p = some (c', called) ∧ ClearsExactly c p c' called := by
  obtain ⟨c, hrun, hinv, hsource⟩ := cacheInv_run (cacheInv_empty part)
    (fun table barekey uve huve => by cases huve) hcalls
  exact ⟨c, hrun, hinv.indexesAgree hsource, hinv.clearsExactly⟩

/-- Two structs of one UVE whose name has the separator, one of them deleted again. -/
theorem cache_indexes_agree_sample :
    ∃ c, (cacheSystem Nat).run
        [.store_uve 3 ⟨"10.0.0.1", "0", "10.0.0.1", 1, 5, 6379⟩ "ObjectVNTable:default:vn1"
          (some "UveVirtualNetworkAgent") (some 7),
         .store_uve 3 ⟨"10.0.0.1", "0", "10.0.0.1", 1, 5, 6379⟩ "ObjectVNTable:default:vn1"
          (some "UVEAlarms") none] = some c ∧ IndexesAgree c ∧
      ∀ p, ∃ c' called, c.clear_partition p = some (c', called) ∧ ClearsExactly c p c' called := by
  refine cache_indexes_agree (fun _ => 3) _ fun call hcall => ?_
  simp only [List.mem_cons, List.not_mem_nil, or_false] at hcall
  rcases hcall with rfl | rfl <;> exact ⟨rfl, by decide⟩

end TfAnalytics.OpServer
