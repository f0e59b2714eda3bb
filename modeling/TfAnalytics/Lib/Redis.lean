import Mathlib.Data.List.Nodup
import Mathlib.Data.List.Dedup

/-!
# Redis databases

A database as the contents of its sets, hashes and sorted sets, each by name. A
name that holds nothing does not exist, as in Redis, where a collection goes
with its last member. The order of the members of a set is not specified by
Redis; here it is the order of insertion.

What each command does to each collection is stated once, as simp lemmas on
membership and lookup.
-/

namespace TfAnalytics.Lib

structure Redis where
  sets : String → List String
  hashes : String → List (String × String)
  zsets : String → List (String × Int)

namespace Redis

def empty : Redis := ⟨fun _ => [], fun _ => [], fun _ => []⟩

-- ---------------------------------------------------------------------------
-- Sets
-- ---------------------------------------------------------------------------

def smembers (db : Redis) (key : String) : List String := db.sets key

def sismember (db : Redis) (key member : String) : Bool := member ∈ db.sets key

def sadd (db : Redis) (key member : String) : Redis :=
  { db with sets := fun k =>
      if k = key ∧ member ∉ db.sets key then db.sets key ++ [member] else db.sets k }

def srem (db : Redis) (key member : String) : Redis :=
  { db with sets := fun k =>
      if k = key then (db.sets key).filter fun m => m ≠ member else db.sets k }

-- ---------------------------------------------------------------------------
-- Hashes
-- ---------------------------------------------------------------------------

def hgetall (db : Redis) (key : String) : List (String × String) := db.hashes key

def hget (db : Redis) (key field : String) : Option String := (db.hashes key).lookup field

/-- The fields without one of them. -/
def hashErase (field : String) (l : List (String × String)) : List (String × String) :=
  l.filter fun e => e.1 ≠ field

def hset (db : Redis) (key field value : String) : Redis :=
  { db with hashes := fun k =>
      if k = key then (field, value) :: hashErase field (db.hashes key) else db.hashes k }

def hdel (db : Redis) (key field : String) : Redis :=
  { db with hashes := fun k => if k = key then hashErase field (db.hashes key) else db.hashes k }

-- ---------------------------------------------------------------------------
-- Sorted sets
-- ---------------------------------------------------------------------------

/-- Insertion by score, behind equal scores. -/
def zinsert (member : String) (score : Int) : List (String × Int) → List (String × Int)
  | [] => [(member, score)]
  | e :: rest =>
    if score < e.2 then (member, score) :: e :: rest else e :: zinsert member score rest

def zadd (db : Redis) (key : String) (score : Int) (member : String) : Redis :=
  { db with zsets := fun k =>
      if k = key then zinsert member score ((db.zsets key).filter fun e => e.1 ≠ member)
      else db.zsets k }

def zrem (db : Redis) (key member : String) : Redis :=
  { db with zsets := fun k =>
      if k = key then (db.zsets key).filter fun e => e.1 ≠ member else db.zsets k }

/-- The members of a sorted set. -/
def zmembers (db : Redis) (key : String) : List String := (db.zsets key).map Prod.fst

/-- `ZRANGE key 0 -1 WITHSCORES`. -/
def zrange (db : Redis) (key : String) : List (String × Int) := db.zsets key

-- ---------------------------------------------------------------------------
-- Keys
-- ---------------------------------------------------------------------------

def del (db : Redis) (key : String) : Redis where
  sets k := if k = key then [] else db.sets k
  hashes k := if k = key then [] else db.hashes k
  zsets k := if k = key then [] else db.zsets k

def «exists» (db : Redis) (key : String) : Bool :=
  !(db.sets key).isEmpty || !(db.hashes key).isEmpty || !(db.zsets key).isEmpty

-- ---------------------------------------------------------------------------
-- What the commands change
-- ---------------------------------------------------------------------------

section Sets

variable (db : Redis) (key member k : String)

@[simp] theorem mem_sadd {x : String} :
    x ∈ (db.sadd key member).sets k ↔ x ∈ db.sets k ∨ (k = key ∧ x = member) := by
  by_cases hk : k = key
  · subst hk
    by_cases hm : member ∈ db.sets k
    · simp only [sadd, hm, not_true, and_false, if_false, true_and]
      refine ⟨Or.inl, ?_⟩
      rintro (hx | rfl)
      · exact hx
      · exact hm
    · simp [sadd, hm]
  · simp [sadd, hk]

@[simp] theorem mem_srem {x : String} :
    x ∈ (db.srem key member).sets k ↔ x ∈ db.sets k ∧ ¬(k = key ∧ x = member) := by
  by_cases hk : k = key
  · subst hk
    simp [srem]
  · simp [srem, hk]

theorem nodup_sadd (h : ∀ k, (db.sets k).Nodup) : ((db.sadd key member).sets k).Nodup := by
  simp only [sadd]
  split
  · rename_i hk
    exact List.Nodup.append (h key) (List.nodup_singleton member)
      (List.disjoint_singleton.mpr hk.2)
  · exact h k

theorem sadd_sets_of_ne (h : k ≠ key) : (db.sadd key member).sets k = db.sets k := by
  simp [sadd, h]

theorem srem_sets_of_ne (h : k ≠ key) : (db.srem key member).sets k = db.sets k := by
  simp [srem, h]

theorem nodup_srem (h : ∀ k, (db.sets k).Nodup) : ((db.srem key member).sets k).Nodup := by
  simp only [srem]
  split
  · exact (h key).filter _
  · exact h k

@[simp] theorem sadd_hashes : (db.sadd key member).hashes = db.hashes := rfl
@[simp] theorem sadd_hget : (db.sadd key member).hget = db.hget := rfl
@[simp] theorem sadd_zmembers : (db.sadd key member).zmembers = db.zmembers := rfl
@[simp] theorem srem_hashes : (db.srem key member).hashes = db.hashes := rfl
@[simp] theorem srem_hget : (db.srem key member).hget = db.hget := rfl
@[simp] theorem srem_zmembers : (db.srem key member).zmembers = db.zmembers := rfl

end Sets

section Hashes

variable (db : Redis) (key field value k : String)

theorem lookup_hashErase (f : String) (l : List (String × String)) :
    (hashErase field l).lookup f = if f = field then none else l.lookup f := by
  induction l with
  | nil => simp [hashErase]
  | cons e rest ih =>
    obtain ⟨a, v⟩ := e
    unfold hashErase at ih ⊢
    rw [List.lookup_cons]
    by_cases he : a = field
    · rw [List.filter_cons_of_neg (by simp [he]), ih]
      by_cases hf : f = field
      · rw [if_pos hf, if_pos hf]
      · have hne : (f == a) = false := by simp [he, hf]
        rw [if_neg hf, if_neg hf, hne]
    · rw [List.filter_cons_of_pos (by simp [he]), List.lookup_cons, ih]
      by_cases hf : f = field
      · have hne : (f == a) = false := by simp [hf, Ne.symm he]
        rw [if_pos hf, if_pos hf, hne]
      · rw [if_neg hf, if_neg hf]

@[simp] theorem hget_hset (f : String) :
    (db.hset key field value).hget k f =
      if k = key ∧ f = field then some value else db.hget k f := by
  unfold hget hset
  by_cases hk : k = key
  · subst hk
    by_cases hf : f = field
    · simp [hf]
    · have : (f == field) = false := by simp [hf]
      simp [List.lookup_cons, this, hf, lookup_hashErase]
  · simp [hk]

@[simp] theorem hget_hdel (f : String) :
    (db.hdel key field).hget k f = if k = key ∧ f = field then none else db.hget k f := by
  unfold hget hdel
  by_cases hk : k = key
  · subst hk
    by_cases hf : f = field <;> simp [hf, lookup_hashErase]
  · simp [hk]

@[simp] theorem hset_sets : (db.hset key field value).sets = db.sets := rfl
@[simp] theorem hset_zmembers : (db.hset key field value).zmembers = db.zmembers := rfl
@[simp] theorem hdel_sets : (db.hdel key field).sets = db.sets := rfl
@[simp] theorem hdel_zmembers : (db.hdel key field).zmembers = db.zmembers := rfl

theorem hset_hashes_of_ne (h : k ≠ key) : (db.hset key field value).hashes k = db.hashes k := by
  simp [hset, h]

theorem hdel_hashes_of_ne (h : k ≠ key) : (db.hdel key field).hashes k = db.hashes k := by
  simp [hdel, h]

theorem hset_hashes_self :
    (db.hset key field value).hashes key = (field, value) :: hashErase field (db.hashes key) := by
  simp [hset]

end Hashes

section SortedSets

variable (db : Redis) (key member k : String) (score : Int)

theorem zinsert_perm (l : List (String × Int)) :
    (zinsert member score l).Perm ((member, score) :: l) := by
  induction l with
  | nil => exact List.Perm.refl _
  | cons e rest ih =>
    rw [zinsert]
    split
    · exact List.Perm.refl _
    · exact (ih.cons e).trans (List.Perm.swap _ _ _)

theorem map_filter_fst (l : List (String × Int)) :
    (l.filter fun e => e.1 ≠ member).map Prod.fst = (l.map Prod.fst).filter (· ≠ member) := by
  rw [List.filter_map]
  rfl

theorem zmembers_zadd_perm :
    ((db.zadd key score member).zmembers key).Perm
      (member :: (db.zmembers key).filter (· ≠ member)) := by
  simp only [zmembers, zadd]
  rw [if_pos trivial, ← map_filter_fst]
  exact (zinsert_perm member score _).map Prod.fst

theorem zmembers_zadd_of_ne (h : k ≠ key) :
    (db.zadd key score member).zmembers k = db.zmembers k := by
  simp [zmembers, zadd, h]

@[simp] theorem mem_zadd {x : String} :
    x ∈ (db.zadd key score member).zmembers k ↔ x ∈ db.zmembers k ∨ (k = key ∧ x = member) := by
  by_cases hk : k = key
  · subst hk
    rw [(zmembers_zadd_perm db k member score).mem_iff]
    by_cases hx : x = member <;> simp [hx]
  · simp [zmembers_zadd_of_ne db key member k score hk, hk]

theorem nodup_zadd (h : ∀ k, (db.zmembers k).Nodup) :
    ((db.zadd key score member).zmembers k).Nodup := by
  by_cases hk : k = key
  · subst hk
    rw [(zmembers_zadd_perm db k member score).nodup_iff, List.nodup_cons]
    exact ⟨by simp, (h k).filter _⟩
  · rw [zmembers_zadd_of_ne db key member k score hk]
    exact h k

theorem zmembers_zrem : (db.zrem key member).zmembers k =
    if k = key then (db.zmembers k).filter (· ≠ member) else db.zmembers k := by
  simp only [zmembers, zrem]
  by_cases hk : k = key
  · subst hk
    rw [if_pos rfl, if_pos rfl, map_filter_fst]
  · rw [if_neg hk, if_neg hk]

@[simp] theorem mem_zrem {x : String} :
    x ∈ (db.zrem key member).zmembers k ↔ x ∈ db.zmembers k ∧ ¬(k = key ∧ x = member) := by
  rw [zmembers_zrem]
  by_cases hk : k = key <;> simp [hk]

theorem nodup_zrem (h : ∀ k, (db.zmembers k).Nodup) : ((db.zrem key member).zmembers k).Nodup := by
  rw [zmembers_zrem]
  split
  · exact (h k).filter _
  · exact h k

@[simp] theorem zadd_sets : (db.zadd key score member).sets = db.sets := rfl
@[simp] theorem zadd_hashes : (db.zadd key score member).hashes = db.hashes := rfl
@[simp] theorem zadd_hget : (db.zadd key score member).hget = db.hget := rfl
@[simp] theorem zrem_sets : (db.zrem key member).sets = db.sets := rfl
@[simp] theorem zrem_hashes : (db.zrem key member).hashes = db.hashes := rfl
@[simp] theorem zrem_hget : (db.zrem key member).hget = db.hget := rfl

end SortedSets

section Keys

variable (db : Redis) (key k : String)

@[simp] theorem mem_del_sets {x : String} :
    x ∈ (db.del key).sets k ↔ x ∈ db.sets k ∧ k ≠ key := by
  by_cases hk : k = key <;> simp [del, hk]

theorem del_sets_of_ne (h : k ≠ key) : (db.del key).sets k = db.sets k := by
  simp [del, h]

theorem del_hashes_of_ne (h : k ≠ key) : (db.del key).hashes k = db.hashes k := by
  simp [del, h]

theorem del_hashes : (db.del key).hashes k = if k = key then [] else db.hashes k := rfl

@[simp] theorem hget_del (f : String) :
    (db.del key).hget k f = if k = key then none else db.hget k f := by
  unfold hget
  rw [del_hashes]
  split <;> simp

theorem zmembers_del : (db.del key).zmembers k = if k = key then [] else db.zmembers k := by
  simp only [zmembers, del]
  split <;> simp

@[simp] theorem mem_del_zmembers {x : String} :
    x ∈ (db.del key).zmembers k ↔ x ∈ db.zmembers k ∧ k ≠ key := by
  rw [zmembers_del]
  by_cases hk : k = key <;> simp [hk]

/-- Deleting a key that does not exist changes nothing. -/
theorem del_if_exists : (if db.exists key then db.del key else db) = db.del key := by
  split
  · rfl
  · rename_i h
    simp only [«exists», Bool.or_eq_true, Bool.not_eq_true', List.isEmpty_eq_false_iff, ne_eq,
      not_or, not_not] at h
    obtain ⟨⟨hs, hh⟩, hz⟩ := h
    have hself : ∀ {β : Type} (f : String → List β), f key = [] →
        (fun k => if k = key then [] else f k) = f := by
      intro β f hf
      funext k
      by_cases hk : k = key <;> simp [hk, hf]
    simp only [del, hself _ hs, hself _ hh, hself _ hz]

theorem nodup_del (h : ∀ k, (db.sets k).Nodup) : ((db.del key).sets k).Nodup := by
  simp only [del]
  split
  · exact List.nodup_nil
  · exact h k

theorem znodup_del (h : ∀ k, (db.zmembers k).Nodup) : ((db.del key).zmembers k).Nodup := by
  rw [zmembers_del]
  split
  · exact List.nodup_nil
  · exact h k

end Keys

end Redis

end TfAnalytics.Lib
