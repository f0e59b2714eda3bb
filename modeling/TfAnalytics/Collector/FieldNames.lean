import TfAnalytics.QueryEngine.Window
import Mathlib

/-!
# Collector and query engine — field names

The collector records which values a field takes in the stat table FieldNames,
from which the UI makes its suggestions. `FieldNamesTableInsert` (db_handler.cc)
writes a value once in each cache window of 2^28 microseconds, at its first
sighting. A FieldNames query shorter than a cache window is widened to the left
(`AnalyticsQuery::Init`, query.cc) so that it finds these records.

The windows of the writer are aligned, that of the reader ends where the query
does; a run is any sequence of sightings.

* `cacheInv_insert`: what the cache holds after a sequence of sightings;
* `mem_written`: which sightings are written;
* `found_iff`: exactly when a query finds a value seen in its window.
-/

namespace TfAnalytics.Collector

open TfAnalytics.QueryEngine

-- ---------------------------------------------------------------------------
-- The writer
-- ---------------------------------------------------------------------------

/-- The arguments of `FieldNamesTableInsert`. -/
structure Sighting where
  timestamp : Nat
  table_prefix : String
  field_name : String
  field_val : String

namespace Sighting

def table_name (m : Sighting) : String := m.table_prefix ++ m.field_name

def fc_entry (m : Sighting) : String := m.table_name ++ ":" ++ m.field_val

/-- The T2 of the sighting, a `uint32_t`. -/
def temp_u32 (m : Sighting) : Nat := (m.timestamp >>> RowTimeInBits) % 2 ^ 32

def cacheindex (m : Sighting) : Nat := m.temp_u32 >>> CacheTimeInAdditionalBits

/-- The number of its cache window. -/
def cacheWindow (m : Sighting) : Nat :=
  m.timestamp >>> (RowTimeInBits + CacheTimeInAdditionalBits)

end Sighting

structure FieldCache where
  field_cache_index_ : Nat
  field_cache_set_ : Finset String

def FieldCache.initial : FieldCache := ⟨0, ∅⟩

def CanRecordDataForT2 (cache : FieldCache) (temp_u32 : Nat) (fc_entry : String) :
    Bool × FieldCache :=
  let cacheindex := temp_u32 >>> CacheTimeInAdditionalBits
  if cacheindex > cache.field_cache_index_ then (true, ⟨cacheindex, {fc_entry}⟩)
  else if cacheindex = cache.field_cache_index_ then
    if fc_entry ∉ cache.field_cache_set_ then
      (true, { cache with field_cache_set_ := insert fc_entry cache.field_cache_set_ })
    else (false, cache)
  else (false, cache)

/-- The row of the stat table FieldNames, attribute fields. -/
structure FieldNamesRecord where
  timestamp : Nat
  name : String
  Source : String
  value : String

/-- The record of a sighting; its source is the collector. -/
def recordOf (col_name_ : String) (m : Sighting) : FieldNamesRecord :=
  ⟨m.timestamp, m.table_name, col_name_, m.field_val⟩

def FieldNamesTableInsert (col_name_ : String) (cache : FieldCache) (m : Sighting) :
    Option FieldNamesRecord × FieldCache :=
  let res := CanRecordDataForT2 cache m.temp_u32 m.fc_entry
  (if res.1 then some (recordOf col_name_ m) else none, res.2)

/-- The records that a sequence of sightings leaves. -/
def written (col_name_ : String) : FieldCache → List Sighting → List FieldNamesRecord
  | _, [] => []
  | cache, m :: rest =>
    let res := FieldNamesTableInsert col_name_ cache m
    res.1.toList ++ written col_name_ res.2 rest

-- ---------------------------------------------------------------------------
-- What is written
-- ---------------------------------------------------------------------------

/-- What the cache holds after the sightings `past`. -/
structure CacheInv (past : List Sighting) (cache : FieldCache) : Prop where
  le : ∀ p ∈ past, p.cacheindex ≤ cache.field_cache_index_
  attained : cache.field_cache_index_ = 0 ∨
    ∃ p ∈ past, p.cacheindex = cache.field_cache_index_
  mem : ∀ e, e ∈ cache.field_cache_set_ ↔
    ∃ p ∈ past, p.fc_entry = e ∧ p.cacheindex = cache.field_cache_index_

theorem cacheInv_initial : CacheInv [] .initial := by
  constructor <;> simp [FieldCache.initial]

/-- No earlier sighting has a larger cache index, or the same one with the same
entry. -/
def FirstOfIndex (past : List Sighting) (m : Sighting) : Prop :=
  ∀ p ∈ past, p.cacheindex ≤ m.cacheindex ∧
    (p.fc_entry = m.fc_entry → p.cacheindex ≠ m.cacheindex)

theorem CanRecord_newer {cache : FieldCache} {m : Sighting}
    (h : cache.field_cache_index_ < m.cacheindex) :
    CanRecordDataForT2 cache m.temp_u32 m.fc_entry = (true, ⟨m.cacheindex, {m.fc_entry}⟩) :=
  if_pos h

theorem CanRecord_older {cache : FieldCache} {m : Sighting}
    (h : m.cacheindex < cache.field_cache_index_) :
    CanRecordDataForT2 cache m.temp_u32 m.fc_entry = (false, cache) :=
  (if_neg (lt_asymm h)).trans (if_neg h.ne)

theorem CanRecord_same {cache : FieldCache} {m : Sighting}
    (h : m.cacheindex = cache.field_cache_index_) :
    CanRecordDataForT2 cache m.temp_u32 m.fc_entry =
      if m.fc_entry ∉ cache.field_cache_set_ then
        (true, { cache with field_cache_set_ := insert m.fc_entry cache.field_cache_set_ })
      else (false, cache) :=
  (if_neg h.le.not_gt).trans (if_pos h)

theorem cacheInv_insert {past : List Sighting} {cache : FieldCache} (h : CacheInv past cache)
    (m : Sighting) :
    CacheInv (past ++ [m]) (CanRecordDataForT2 cache m.temp_u32 m.fc_entry).2 := by
  rcases lt_trichotomy m.cacheindex cache.field_cache_index_ with hlt | heq | hgt
  · rw [CanRecord_older hlt]
    refine ⟨fun p hp => ?_, ?_, fun e => ?_⟩
    · rcases List.mem_append.mp hp with hp | hp
      · exact h.le p hp
      · rw [List.mem_singleton.mp hp]
        exact hlt.le
    · exact h.attained.imp_right fun ⟨p, hp, hpi⟩ => ⟨p, List.mem_append_left _ hp, hpi⟩
    · simp [h.mem, or_and_right, exists_or, hlt.ne]
  · rw [CanRecord_same heq]
    have hle : ∀ p ∈ past ++ [m], p.cacheindex ≤ cache.field_cache_index_ := by
      intro p hp
      rcases List.mem_append.mp hp with hp | hp
      · exact h.le p hp
      · rw [List.mem_singleton.mp hp]
        exact heq.le
    have hmem : ∀ e, e ∈ insert m.fc_entry cache.field_cache_set_ ↔
        ∃ p ∈ past ++ [m], p.fc_entry = e ∧ p.cacheindex = cache.field_cache_index_ := by
      intro e
      simp only [Finset.mem_insert, h.mem, List.mem_append, List.mem_singleton, or_and_right,
        exists_or, exists_eq_left, heq, and_true]
      rw [or_comm, eq_comm]
    have hattained : ∃ p ∈ past ++ [m], p.cacheindex = cache.field_cache_index_ :=
      ⟨m, List.mem_append_right _ (List.mem_singleton_self m), heq⟩
    split
    · exact ⟨hle, .inr hattained, hmem⟩
    · rename_i hin
      rw [not_not] at hin
      rw [Finset.insert_eq_of_mem hin] at hmem
      exact ⟨hle, .inr hattained, hmem⟩
  · rw [CanRecord_newer hgt]
    have hnew : ∀ p ∈ past, p.cacheindex < m.cacheindex := fun p hp => (h.le p hp).trans_lt hgt
    refine ⟨fun p hp => ?_, .inr ⟨m, by simp, rfl⟩, fun e => ?_⟩
    · rcases List.mem_append.mp hp with hp | hp
      · exact (hnew p hp).le
      · rw [List.mem_singleton.mp hp]
    · rw [Finset.mem_singleton]
      constructor
      · rintro rfl
        exact ⟨m, by simp, rfl, rfl⟩
      · rintro ⟨p, hp, rfl, hpi⟩
        rcases List.mem_append.mp hp with hp | hp
        · exact absurd hpi (hnew p hp).ne
        · rw [List.mem_singleton.mp hp]

/-- A sighting is recorded if it is the first of its index with its entry. -/
theorem record_iff {past : List Sighting} {cache : FieldCache} (h : CacheInv past cache)
    (m : Sighting) :
    (CanRecordDataForT2 cache m.temp_u32 m.fc_entry).1 = true ↔ FirstOfIndex past m := by
  rcases lt_trichotomy m.cacheindex cache.field_cache_index_ with hlt | heq | hgt
  · rw [CanRecord_older hlt]
    refine ⟨nofun, fun hfirst => ?_⟩
    rcases h.attained with h0 | ⟨p, hp, hpi⟩
    · omega
    · have := (hfirst p hp).1
      omega
  · rw [CanRecord_same heq]
    constructor
    · intro hrec p hp
      refine ⟨heq ▸ h.le p hp, fun hentry hpi => ?_⟩
      have hin : m.fc_entry ∈ cache.field_cache_set_ :=
        (h.mem _).mpr ⟨p, hp, hentry, hpi.trans heq⟩
      simp [hin] at hrec
    · intro hfirst
      rw [if_pos]
      intro hin
      obtain ⟨p, hp, hentry, hpi⟩ := (h.mem _).mp hin
      exact (hfirst p hp).2 hentry (hpi.trans heq.symm)
  · rw [CanRecord_newer hgt]
    refine ⟨fun _ p hp => ?_, fun _ => rfl⟩
    have hlt : p.cacheindex < m.cacheindex := (h.le p hp).trans_lt hgt
    exact ⟨hlt.le, fun _ => hlt.ne⟩

/-- The records of a run are those of its first sightings by index and entry. -/
theorem mem_written_from (col_name_ : String) (r : FieldNamesRecord) (msgs : List Sighting) :
    ∀ (past : List Sighting) (cache : FieldCache), CacheInv past cache →
      (r ∈ written col_name_ cache msgs ↔
        ∃ before m after, msgs = before ++ m :: after ∧ FirstOfIndex (past ++ before) m ∧
          r = recordOf col_name_ m) := by
  induction msgs with
  | nil =>
    intro past cache _
    simp [written]
  | cons m rest ih =>
    intro past cache h
    have hrecord : r ∈ (FieldNamesTableInsert col_name_ cache m).1.toList ↔
        FirstOfIndex past m ∧ r = recordOf col_name_ m := by
      rw [← record_iff h m]
      unfold FieldNamesTableInsert
      by_cases hrec : (CanRecordDataForT2 cache m.temp_u32 m.fc_entry).1 = true
      · simp [hrec]
      · simp [hrec]
    have hnext : CacheInv (past ++ [m]) (FieldNamesTableInsert col_name_ cache m).2 :=
      cacheInv_insert h m
    rw [written, List.mem_append, hrecord, ih (past ++ [m]) _ hnext]
    constructor
    · rintro (⟨hfirst, hr⟩ | ⟨before, m', after, rfl, hfirst, hr⟩)
      · exact ⟨[], m, rest, rfl, by rwa [List.append_nil], hr⟩
      · refine ⟨m :: before, m', after, rfl, ?_, hr⟩
        rwa [List.append_assoc] at hfirst
    · rintro ⟨before, m', after, hmsgs, hfirst, hr⟩
      cases before with
      | nil =>
        obtain ⟨rfl, rfl⟩ := List.cons.inj hmsgs
        exact .inl ⟨by rwa [List.append_nil] at hfirst, hr⟩
      | cons b before =>
        obtain ⟨rfl, rfl⟩ := List.cons.inj hmsgs
        refine .inr ⟨before, m', after, rfl, ?_, hr⟩
        rwa [List.append_assoc]

theorem mem_written {col_name_ : String} {r : FieldNamesRecord} {msgs : List Sighting} :
    r ∈ written col_name_ .initial msgs ↔
      ∃ before m after, msgs = before ++ m :: after ∧ FirstOfIndex before m ∧
        r = recordOf col_name_ m :=
  mem_written_from col_name_ r msgs [] .initial cacheInv_initial

-- ---------------------------------------------------------------------------
-- The reader
-- ---------------------------------------------------------------------------

/-- The length of a cache window. -/
def cache_time : Nat := 2 ^ (RowTimeInBits + CacheTimeInAdditionalBits)

/-- A FieldNames query that is not clamped by the clock or the TTL, also when it
is widened. -/
structure Unclamped (env : Env) (clock : Clock) (table : String) (req_from req_end : Nat) :
    Prop where
  fieldNames : is_stat_fieldnames_table_query table = true
  from_le : min_start_time env clock table ≤ req_from
  ordered : req_from ≤ req_end
  end_le : req_end ≤ clock.limits
  fits : clock.limits < 2 ^ 64
  widened_le : min_start_time env clock table + cache_time ≤ req_end

theorem clampWindow_unclamped {env : Env} {clock : Clock} {table : String} {req_from req_end : Nat}
    (h : Unclamped env clock table req_from req_end) :
    clampWindow env clock table req_from req_end =
      (min req_from (req_end - cache_time), req_end) := by
  obtain ⟨hnames, hfrom, hordered, hend, hfits, hroom⟩ := h
  have hperiod : sub64 req_end req_from = req_end - req_from := sub64_eq hordered (by omega)
  have hcache : cache_time = 2 ^ (RowTimeInBits + CacheTimeInAdditionalBits) := rfl
  simp only [clampWindow, widenFieldNames, hnames, if_true, if_neg (not_lt.mpr hfrom),
    if_neg (not_lt.mpr hend), hperiod, ← hcache]
  by_cases hshort : req_end - req_from < cache_time
  · have hwide : sub64 req_from (cache_time - (req_end - req_from)) = req_end - cache_time := by
      rw [sub64_eq (by omega) (by omega)]
      omega
    have hmin : ¬req_end - cache_time < min_start_time env clock table := by omega
    have hord : ¬req_end - cache_time > req_end := by omega
    rw [if_pos hshort, hwide, if_neg hmin, if_neg hord]
    have : min req_from (req_end - cache_time) = req_end - cache_time := by omega
    rw [this]
  · have hord : ¬req_from > req_end := by omega
    rw [if_neg hshort, if_neg hord]
    have : min req_from (req_end - cache_time) = req_from := by omega
    rw [this]

-- ---------------------------------------------------------------------------
-- Writer against reader
-- ---------------------------------------------------------------------------

/-- A record of the value of `v`, written in its cache window, is in the query's
window. -/
def Found (records : List FieldNamesRecord) (v : Sighting) (window : Nat × Nat) : Prop :=
  ∃ r ∈ records, r.name = v.table_name ∧ r.value = v.field_val ∧
    r.timestamp >>> (RowTimeInBits + CacheTimeInAdditionalBits) = v.cacheWindow ∧
    window.1 ≤ r.timestamp ∧ r.timestamp ≤ window.2

/-- No earlier sighting in the cache window of `v` has its entry. -/
def FirstOfWindow (before : List Sighting) (v : Sighting) : Prop :=
  ∀ p ∈ before, ¬(p.cacheWindow = v.cacheWindow ∧ p.fc_entry = v.fc_entry)

theorem cacheindex_eq (m : Sighting) : m.cacheindex = m.cacheWindow % 2 ^ 27 := by
  unfold Sighting.cacheindex Sighting.temp_u32 Sighting.cacheWindow RowTimeInBits
    CacheTimeInAdditionalBits
  simp only [Nat.shiftRight_eq_div_pow]
  omega

/-- Before the year 3111 the 32-bit index does not wrap. -/
theorem firstOfIndex_of_window {before : List Sighting} {m : Sighting}
    (hsorted : ∀ p ∈ before, p.timestamp ≤ m.timestamp) (hfits : m.timestamp < 2 ^ 55)
    (h : FirstOfWindow before m) : FirstOfIndex before m := by
  intro p hp
  have hle := hsorted p hp
  have hindex : ∀ q : Sighting, q.timestamp < 2 ^ 55 → q.cacheindex = q.cacheWindow := by
    intro q hq
    rw [cacheindex_eq]
    unfold Sighting.cacheWindow RowTimeInBits CacheTimeInAdditionalBits
    rw [Nat.shiftRight_eq_div_pow]
    omega
  rw [hindex p (by omega), hindex m hfits]
  refine ⟨?_, fun hentry heq => h p hp ⟨heq, hentry⟩⟩
  unfold Sighting.cacheWindow
  rw [Nat.shiftRight_eq_div_pow, Nat.shiftRight_eq_div_pow]
  exact Nat.div_le_div_right hle

/-- A value seen in the window of a query is found iff the first sighting of its
entry in that cache window is not before the widened window, is of the same field
and was not hidden by a wrapped cache index. -/
theorem found_iff (col_name_ : String) (env : Env) (clock : Clock) (table : String)
    (req_from req_end : Nat) (hquery : Unclamped env clock table req_from req_end)
    (msgs : List Sighting) (hsorted : msgs.Pairwise fun a b => a.timestamp ≤ b.timestamp)
    (v : Sighting) (hv : v ∈ msgs) (hend : v.timestamp ≤ req_end) :
    Found (written col_name_ .initial msgs) v (clampWindow env clock table req_from req_end) ↔
      ∃ before first after, msgs = before ++ first :: after ∧
        first.cacheWindow = v.cacheWindow ∧ first.fc_entry = v.fc_entry ∧ FirstOfWindow before v ∧
        first.table_name = v.table_name ∧
        min req_from (req_end - cache_time) ≤ first.timestamp ∧ FirstOfIndex before first := by
  rw [clampWindow_unclamped hquery]
  constructor
  · rintro ⟨r, hr, hname, hvalue, hwindow, hfrom, -⟩
    obtain ⟨before, m, after, hmsgs, hfirst, rfl⟩ := mem_written.mp hr
    have hentry : m.fc_entry = v.fc_entry := by
      unfold Sighting.fc_entry
      rw [show m.table_name = v.table_name from hname, show m.field_val = v.field_val from hvalue]
    refine ⟨before, m, after, hmsgs, hwindow, hentry, ?_, hname, hfrom, hfirst⟩
    rintro p hp ⟨hpw, hpe⟩
    refine (hfirst p hp).2 (hpe.trans hentry.symm) ?_
    rw [cacheindex_eq, cacheindex_eq, hpw]
    exact congrArg (· % 2 ^ 27) hwindow.symm
  · rintro ⟨before, first, after, hmsgs, hwindow, hentry, hfirst, hname, hfrom, hindex⟩
    have hvalue : first.field_val = v.field_val := by
      unfold Sighting.fc_entry at hentry
      rw [hname] at hentry
      exact (String.append_right_inj _).mp hentry
    -- `v` itself is the first sighting or comes after it
    have hle : first.timestamp ≤ v.timestamp := by
      rw [hmsgs] at hv hsorted
      rcases List.mem_append.mp hv with hv | hv
      · exact absurd ⟨rfl, rfl⟩ (hfirst v hv)
      · rcases List.mem_cons.mp hv with rfl | hv
        · exact le_rfl
        · exact (List.pairwise_cons.mp (List.pairwise_append.mp hsorted).2.1).1 v hv
    exact ⟨recordOf col_name_ first, mem_written.mpr ⟨before, first, after, hmsgs, hindex, rfl⟩,
      hname, hvalue, hwindow, hfrom, hle.trans hend⟩

section Sample

def sampleTtl : Env := ⟨fun _ => 1, 100, fun _ => none⟩

/-- A value seen at the first and the last microsecond of a cache window. -/
def sampleSightings : List Sighting :=
  [⟨100 * cache_time, "MessageTable", ":Source", "a"⟩,
    ⟨101 * cache_time - 1, "MessageTable", ":Source", "a"⟩]

def sampleTable : String := "StatTable.FieldNames.fields"

theorem sample_sorted : sampleSightings.Pairwise fun a b => a.timestamp ≤ b.timestamp := by
  decide

theorem sample_unclamped {req_from req_end : Nat} (hfrom : 100 * cache_time ≤ req_from)
    (hordered : req_from ≤ req_end) (hend : req_end ≤ 102 * cache_time) :
    Unclamped sampleTtl (Clock.at (102 * cache_time)) sampleTable req_from req_end := by
  have hmin : min_start_time sampleTtl (Clock.at (102 * cache_time)) sampleTable +
      cache_time ≤ 100 * cache_time := by decide
  exact ⟨by decide, by omega, hordered, hend, by decide, by omega⟩

theorem found_sample :
    Found (written "collector" .initial sampleSightings)
      ⟨101 * cache_time - 1, "MessageTable", ":Source", "a"⟩
      (clampWindow sampleTtl (Clock.at (102 * cache_time)) sampleTable (101 * cache_time - 1)
        (101 * cache_time)) := by
  refine (found_iff "collector" _ _ _ _ _
    (sample_unclamped (by decide) (by decide) (by decide)) sampleSightings sample_sorted _ ?_
    (by decide)).mpr ?_
  · simp [sampleSightings]
  · refine ⟨[], _, _, rfl, by decide, by decide, ?_, by decide, by decide, ?_⟩
    · simp [FirstOfWindow]
    · simp [FirstOfIndex]

/-- The value is seen at both ends of a cache window and written at its start; a
query for the last moment of that window that ends in the next one is widened to
just after the record. -/
theorem first_sighting_missed :
    ¬∀ (col_name_ : String) (env : Env) (clock : Clock) (table : String) (req_from req_end : Nat),
      Unclamped env clock table req_from req_end →
      ∀ msgs : List Sighting, (msgs.Pairwise fun a b => a.timestamp ≤ b.timestamp) →
      ∀ v ∈ msgs, req_from ≤ v.timestamp → v.timestamp ≤ req_end →
        Found (written col_name_ .initial msgs) v
          (clampWindow env clock table req_from req_end) := by
  intro h
  have hfound := h "collector" sampleTtl (Clock.at (102 * cache_time)) sampleTable
    (101 * cache_time - 1) (101 * cache_time + 1)
    (sample_unclamped (by decide) (by decide) (by decide)) sampleSightings sample_sorted
    ⟨101 * cache_time - 1, "MessageTable", ":Source", "a"⟩ (by simp [sampleSightings])
    (by decide) (by decide)
  revert hfound
  unfold Found
  decide

end Sample

end TfAnalytics.Collector
