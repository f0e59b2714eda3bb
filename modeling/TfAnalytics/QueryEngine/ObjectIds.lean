import TfAnalytics.QueryEngine.StatsSelect
import Mathlib.Data.List.Induction

/-!
# Query engine — listing the ids of an object table

`DbHandler::ObjectTableInsert` writes one column for every message about an
object: the row is the time's upper bits (`T2`) and the table, the column is
named by the lower bits (`T1`) and holds the object's key. A second object of
the table in the same microsecond takes the column over.

A query for the ids of a table (`SelectQuery::process_query` on
`OBJECT_VALUE_TABLE`) reads the rows of its window and collects the values. The
loop over the rows stops before the row of the end time, and the end filter is
applied to the last row that was read, which is the one before.

`Db_GetMultiRow` is assumed to answer with the columns of each row asked for, in
order (`readRows`).

Main results:

* `mem_process_object_values` — the values a query returns.
* `lists_window_iff` — exactly when these are the ids of the window.
* `listsWindow_iff_of_lt` — the same for times below `2^55`.
-/

namespace TfAnalytics.QueryEngine

open TfAnalytics.Lib

-- ---------------------------------------------------------------------------
-- DbHandler::ObjectTableInsert
-- ---------------------------------------------------------------------------

structure ObjectRecord where
  table : String
  objectkey : String
  timestamp : Nat
  deriving DecidableEq

/-- `uint32_t T2(timestamp >> RowTimeInBits)`. -/
def rowTime (timestamp : Nat) : Nat := (timestamp >>> RowTimeInBits) % 2 ^ 32

/-- `uint32_t T1(timestamp & RowTimeInMask)`. -/
def columnTime (timestamp : Nat) : Nat := timestamp &&& RowTimeInMask

/-- The rows of `OBJECT_VALUE_TABLE` by `T2` and table; `column1` (`T1`) is the
clustering column and `value` a regular one. -/
abbrev ObjectValueRows : Type := Nat → String → OrderedMap Nat String

def ObjectTableInsert (db : ObjectValueRows) (r : ObjectRecord) : ObjectValueRows :=
  fun t2 table =>
    if t2 = rowTime r.timestamp ∧ table = r.table then
      (db t2 table).assign (columnTime r.timestamp) r.objectkey
    else db t2 table

/-- The table after these inserts. -/
def writeRecords (records : List ObjectRecord) : ObjectValueRows :=
  records.foldl ObjectTableInsert fun _ _ => .empty

-- ---------------------------------------------------------------------------
-- SelectQuery::process_query on OBJECT_VALUE_TABLE
-- ---------------------------------------------------------------------------

/-- The loop over the columns of a row; `first` and `last` are the comparisons with
`first_it` and `last_it`. -/
def insertColumns (t1_start t1_end : Nat) (first last : Bool) :
    List (Nat × String) → StringSet → StringSet
  | [], unique_values => unique_values
  | (t1, value) :: columns, unique_values =>
    -- continue
    if first && decide (t1 < t1_start) then
      insertColumns t1_start t1_end first last columns unique_values
    -- break
    else if last && decide (t1 > t1_end) then unique_values
    else insertColumns t1_start t1_end first last columns (unique_values.insert value ())

/-- The loop over the rows. -/
def insertRows (t1_start t1_end : Nat) (mget_res : List (List (Nat × String))) : StringSet :=
  mget_res.zipIdx.foldl
    (fun unique_values row =>
      insertColumns t1_start t1_end (row.2 = 0) (row.2 = mget_res.length - 1) row.1 unique_values)
    .empty

/-- The values of `OBJECT_ID` in the rows of the result; `none` when the database
fails. -/
def process_object_values
    (Db_GetMultiRow : List (Nat × String) → Option (List (List (Nat × String))))
    (object_value_key : String) (from_time end_time : Nat) : Option (List String) :=
  let t2_start := rowTime from_time
  let t2_end := rowTime end_time
  let t1_start := columnTime from_time
  let t1_end := columnTime end_time
  let keys := (List.range' t2_start (t2_end - t2_start)).map fun t2 => (t2, object_value_key)
  (Db_GetMultiRow keys).map fun mget_res =>
    (insertRows t1_start t1_end mget_res).entries.map Prod.fst

/-- A database that answers with a column list for each key, sorted by `T1`. -/
def readRows (db : ObjectValueRows) (keys : List (Nat × String)) :
    Option (List (List (Nat × String))) :=
  some (keys.map fun key => (db key.1 key.2).entries)

/-- The query returns the distinct ids of the table that the window has. -/
def ListsWindow (records : List ObjectRecord) (table : String) (from_time end_time : Nat) : Prop :=
  ∃ values,
    process_object_values (readRows (writeRecords records)) table from_time end_time =
      some values ∧
    values.Nodup ∧
    ∀ v, v ∈ values ↔ ∃ r ∈ records, r.table = table ∧ r.objectkey = v ∧
      from_time ≤ r.timestamp ∧ r.timestamp ≤ end_time

-- ---------------------------------------------------------------------------
-- What is stored
-- ---------------------------------------------------------------------------

/-- Both records are written to one column. -/
def SameColumn (r r' : ObjectRecord) : Prop :=
  r'.table = r.table ∧ rowTime r'.timestamp = rowTime r.timestamp ∧
    columnTime r'.timestamp = columnTime r.timestamp

/-- The record is in the table and not written over. -/
def Kept (records : List ObjectRecord) (r : ObjectRecord) : Prop :=
  ∃ before after, records = before ++ r :: after ∧ ∀ r' ∈ after, ¬ SameColumn r r'

theorem Kept.mem {records : List ObjectRecord} {r : ObjectRecord} (h : Kept records r) :
    r ∈ records := by
  obtain ⟨before, after, rfl, -⟩ := h
  simp

theorem kept_concat (records : List ObjectRecord) (r x : ObjectRecord) :
    Kept (records ++ [x]) r ↔ r = x ∨ (Kept records r ∧ ¬ SameColumn r x) := by
  constructor
  · rintro ⟨before, after, heq, hafter⟩
    rcases List.eq_nil_or_concat after with rfl | ⟨after', y, rfl⟩
    · have := List.append_inj' heq rfl
      simp only [List.cons.injEq, and_true] at this
      exact .inl this.2.symm
    · have heq' : records ++ [x] = (before ++ r :: after') ++ [y] := by simp [heq]
      obtain ⟨hrec, hxy⟩ := List.append_inj' heq' rfl
      simp only [List.cons.injEq, and_true] at hxy
      subst hxy
      exact .inr ⟨⟨before, after', hrec, fun r' hr' => hafter r' (by simp [hr'])⟩,
        hafter x (by simp)⟩
  · rintro (rfl | ⟨⟨before, after, rfl, hafter⟩, hx⟩)
    · exact ⟨records, [], rfl, by simp⟩
    · refine ⟨before, after ++ [x], by simp, fun r' hr' => ?_⟩
      rcases List.mem_append.mp hr' with hr' | hr'
      · exact hafter r' hr'
      · rw [List.mem_singleton.mp hr']
        exact hx

theorem find?_ObjectTableInsert (db : ObjectValueRows) (x : ObjectRecord) (t2 : Nat)
    (table : String) (t1 : Nat) :
    (ObjectTableInsert db x t2 table).find? t1 =
      if t2 = rowTime x.timestamp ∧ table = x.table ∧ t1 = columnTime x.timestamp then
        some x.objectkey
      else (db t2 table).find? t1 := by
  unfold ObjectTableInsert
  by_cases hrow : t2 = rowTime x.timestamp ∧ table = x.table
  · rw [if_pos hrow, OrderedMap.find?_assign]
    simp only [hrow, true_and]
  · rw [if_neg hrow, if_neg fun h => hrow ⟨h.1, h.2.1⟩]

/-- A column holds the key of the record that wrote it last. -/
theorem find?_writeRecords (records : List ObjectRecord) (t2 : Nat) (table : String) (t1 : Nat)
    (v : String) :
    (writeRecords records t2 table).find? t1 = some v ↔
      ∃ r, Kept records r ∧ r.table = table ∧ rowTime r.timestamp = t2 ∧
        columnTime r.timestamp = t1 ∧ r.objectkey = v := by
  induction records using List.reverseRecOn with
  | nil => simp [writeRecords, Kept]
  | append_singleton records x ih =>
    have hfold : writeRecords (records ++ [x]) = ObjectTableInsert (writeRecords records) x := by
      simp [writeRecords]
    rw [hfold, find?_ObjectTableInsert]
    by_cases hx : t2 = rowTime x.timestamp ∧ table = x.table ∧ t1 = columnTime x.timestamp
    · rw [if_pos hx, Option.some.injEq]
      obtain ⟨rfl, rfl, rfl⟩ := hx
      constructor
      · intro hv
        exact ⟨x, (kept_concat records x x).mpr (.inl rfl), rfl, rfl, rfl, hv⟩
      · rintro ⟨r, hr, htable, ht2, ht1, hv⟩
        rcases (kept_concat records r x).mp hr with rfl | ⟨-, hnot⟩
        · exact hv
        · exact absurd ⟨htable.symm, ht2.symm, ht1.symm⟩ hnot
    · rw [if_neg hx, ih]
      constructor
      · rintro ⟨r, hr, htable, ht2, ht1, hv⟩
        refine ⟨r, (kept_concat records r x).mpr (.inr ⟨hr, ?_⟩), htable, ht2, ht1, hv⟩
        rintro ⟨h, h', h''⟩
        exact hx ⟨by rw [h', ht2], by rw [h, htable], by rw [h'', ht1]⟩
      · rintro ⟨r, hr, htable, ht2, ht1, hv⟩
        rcases (kept_concat records r x).mp hr with rfl | ⟨hr, -⟩
        · exact absurd ⟨ht2.symm, htable.symm, ht1.symm⟩ hx
        · exact ⟨r, hr, htable, ht2, ht1, hv⟩

-- ---------------------------------------------------------------------------
-- What is returned
-- ---------------------------------------------------------------------------

/-- Of the columns of a row, sorted by `T1`, those between the two bounds. -/
theorem has_insertColumns (t1_start t1_end : Nat) (first last : Bool)
    {columns : List (Nat × String)} (hsorted : KeysLt columns) (unique_values : StringSet)
    (v : String) :
    (insertColumns t1_start t1_end first last columns unique_values).has v = true ↔
      unique_values.has v = true ∨ ∃ t1, (t1, v) ∈ columns ∧
        (first = true → t1_start ≤ t1) ∧ (last = true → t1 ≤ t1_end) := by
  induction columns generalizing unique_values with
  | nil => simp [insertColumns]
  | cons column columns ih =>
    obtain ⟨t1, value⟩ := column
    obtain ⟨hlt, hrest⟩ := List.pairwise_cons.mp hsorted
    have ih := ih hrest
    rw [insertColumns]
    by_cases hstart : (first && decide (t1 < t1_start)) = true
    · rw [if_pos hstart, ih]
      simp only [Bool.and_eq_true, decide_eq_true_eq] at hstart
      refine or_congr_right ⟨?_, ?_⟩
      · rintro ⟨t, hmem, hbounds⟩
        exact ⟨t, List.mem_cons_of_mem _ hmem, hbounds⟩
      · rintro ⟨t, hmem, hfirst, hlast⟩
        rcases List.mem_cons.mp hmem with heq | hmem
        · have := hfirst hstart.1
          have ht : t = t1 := congrArg Prod.fst heq
          omega
        · exact ⟨t, hmem, hfirst, hlast⟩
    rw [if_neg hstart]
    by_cases hend : (last && decide (t1 > t1_end)) = true
    · rw [if_pos hend]
      simp only [Bool.and_eq_true, decide_eq_true_eq] at hend
      refine ⟨.inl, fun h => h.resolve_right ?_⟩
      rintro ⟨t, hmem, -, hlast⟩
      have hle := hlast hend.1
      rcases List.mem_cons.mp hmem with heq | hmem
      · have ht : t = t1 := congrArg Prod.fst heq
        omega
      · -- the columns behind the first one past the end are past it too
        have := hlt _ hmem
        simp only at this
        omega
    · rw [if_neg hend, ih, StringSet.has_insert]
      simp only [Bool.and_eq_true, decide_eq_true_eq, not_and, not_lt] at hstart hend
      constructor
      · rintro ((h | rfl) | ⟨t, hmem, hbounds⟩)
        · exact .inl h
        · exact .inr ⟨t1, List.mem_cons_self, hstart, hend⟩
        · exact .inr ⟨t, List.mem_cons_of_mem _ hmem, hbounds⟩
      · rintro (h | ⟨t, hmem, hbounds⟩)
        · exact .inl (.inl h)
        · rcases List.mem_cons.mp hmem with heq | hmem
          · exact .inl (.inr (congrArg Prod.snd heq))
          · exact .inr ⟨t, hmem, hbounds⟩

theorem has_insertRows (t1_start t1_end : Nat) {mget_res : List (List (Nat × String))}
    (hsorted : ∀ columns ∈ mget_res, KeysLt columns) (v : String) :
    (insertRows t1_start t1_end mget_res).has v = true ↔
      ∃ i columns, mget_res[i]? = some columns ∧ ∃ t1, (t1, v) ∈ columns ∧
        (i = 0 → t1_start ≤ t1) ∧ (i = mget_res.length - 1 → t1 ≤ t1_end) := by
  have hfold : ∀ (rows : List (List (Nat × String) × Nat)) (unique_values : StringSet),
      (∀ row ∈ rows, KeysLt row.1) →
      ((rows.foldl (fun unique_values row =>
        insertColumns t1_start t1_end (row.2 = 0) (row.2 = mget_res.length - 1) row.1
          unique_values) unique_values).has v = true ↔
        unique_values.has v = true ∨ ∃ row ∈ rows, ∃ t1, (t1, v) ∈ row.1 ∧
          (row.2 = 0 → t1_start ≤ t1) ∧ (row.2 = mget_res.length - 1 → t1 ≤ t1_end)) := by
    intro rows
    induction rows with
    | nil => simp
    | cons row rows ih =>
      intro unique_values hrows
      rw [List.foldl_cons, ih _ fun r hr => hrows r (List.mem_cons_of_mem _ hr),
        has_insertColumns _ _ _ _ (hrows row List.mem_cons_self)]
      simp only [decide_eq_true_eq, List.exists_mem_cons_iff, or_assoc]
  unfold insertRows
  rw [hfold _ _ fun row hrow => hsorted _ (List.fst_mem_of_mem_zipIdx hrow)]
  have hempty : StringSet.has .empty v = false := rfl
  simp only [hempty, Bool.false_eq_true, false_or, Prod.exists, List.mem_zipIdx_iff_getElem?]
  exact ⟨fun ⟨columns, i, h⟩ => ⟨i, columns, h⟩, fun ⟨i, columns, h⟩ => ⟨columns, i, h⟩⟩

theorem mem_keys_iff (s : StringSet) (v : String) :
    v ∈ s.entries.map Prod.fst ↔ s.has v = true := by
  show _ ↔ (findList v s.entries).isSome = true
  rw [findList_isSome_iff, List.mem_map]
  constructor
  · rintro ⟨⟨_, u⟩, hmem, rfl⟩
    exact ⟨u, hmem⟩
  · rintro ⟨u, hmem⟩
    exact ⟨(v, u), hmem, rfl⟩

theorem nodup_keys (s : StringSet) : (s.entries.map Prod.fst).Nodup :=
  (List.pairwise_map.mpr s.sorted).imp fun hlt => ne_of_lt hlt

/-- The rows of a query, from that of its start to the one before that of its end. -/
def rowsRead (db : ObjectValueRows) (table : String) (from_time end_time : Nat) :
    List (List (Nat × String)) :=
  (List.range' (rowTime from_time) (rowTime end_time - rowTime from_time)).map fun t2 =>
    (db t2 table).entries

theorem process_object_values_eq (db : ObjectValueRows) (table : String)
    (from_time end_time : Nat) :
    process_object_values (readRows db) table from_time end_time =
      some ((insertRows (columnTime from_time) (columnTime end_time)
        (rowsRead db table from_time end_time)).entries.map Prod.fst) := by
  unfold process_object_values readRows rowsRead
  simp only [Option.map_some, List.map_map]
  rfl

theorem getElem?_rowsRead (db : ObjectValueRows) (table : String) (from_time end_time i : Nat)
    (columns : List (Nat × String)) :
    (rowsRead db table from_time end_time)[i]? = some columns ↔
      rowTime from_time + i < rowTime end_time ∧
        (db (rowTime from_time + i) table).entries = columns := by
  unfold rowsRead
  rw [List.getElem?_map, Option.map_eq_some_iff]
  constructor
  · rintro ⟨t2, ht2, rfl⟩
    obtain ⟨hi, hget⟩ := List.getElem?_eq_some_iff.mp ht2
    rw [List.getElem_range', Nat.one_mul] at hget
    rw [List.length_range'] at hi
    exact ⟨by omega, by rw [hget]⟩
  · rintro ⟨hi, rfl⟩
    refine ⟨rowTime from_time + i, List.getElem?_eq_some_iff.mpr ⟨?_, ?_⟩, rfl⟩
    · rw [List.length_range']
      omega
    · rw [List.getElem_range', Nat.one_mul]

/-- The times whose columns a query reads and does not filter out. -/
def Fetched (from_time end_time timestamp : Nat) : Prop :=
  rowTime from_time ≤ rowTime timestamp ∧ rowTime timestamp < rowTime end_time ∧
    (rowTime timestamp = rowTime from_time → columnTime from_time ≤ columnTime timestamp) ∧
    (rowTime timestamp + 1 = rowTime end_time → columnTime timestamp ≤ columnTime end_time)

/-- The values a query returns. -/
theorem mem_process_object_values (records : List ObjectRecord) (table : String)
    (from_time end_time : Nat) :
    ∃ values,
      process_object_values (readRows (writeRecords records)) table from_time end_time =
        some values ∧
      values.Nodup ∧
      ∀ v, v ∈ values ↔ ∃ r, Kept records r ∧ r.table = table ∧ r.objectkey = v ∧
        Fetched from_time end_time r.timestamp := by
  have hlength : (rowsRead (writeRecords records) table from_time end_time).length =
      rowTime end_time - rowTime from_time := by
    simp [rowsRead]
  have hsorted : ∀ columns ∈ rowsRead (writeRecords records) table from_time end_time,
      KeysLt columns := by
    intro columns hmem
    obtain ⟨t2, -, rfl⟩ := List.mem_map.mp hmem
    exact (writeRecords records t2 table).sorted
  refine ⟨_, process_object_values_eq _ table from_time end_time, nodup_keys _, fun v => ?_⟩
  rw [mem_keys_iff, has_insertRows _ _ hsorted, hlength]
  constructor
  · rintro ⟨i, columns, hget, t1, hmem, hfirst, hlast⟩
    obtain ⟨hi, rfl⟩ := (getElem?_rowsRead _ table from_time end_time i columns).mp hget
    obtain ⟨r, hr, htable, ht2, ht1, hv⟩ :=
      (find?_writeRecords records _ table t1 v).mp (OrderedMap.mem_entries.mp hmem)
    refine ⟨r, hr, htable, hv, by omega, by omega, fun h => ?_, fun h => ?_⟩
    · rw [ht1]
      exact hfirst (by omega)
    · rw [ht1]
      exact hlast (by omega)
  · rintro ⟨r, hr, htable, hv, hge, hlt, hfirst, hlast⟩
    have hrow : rowTime from_time + (rowTime r.timestamp - rowTime from_time) =
        rowTime r.timestamp := by omega
    refine ⟨rowTime r.timestamp - rowTime from_time, _,
      (getElem?_rowsRead _ table from_time end_time _ _).mpr ⟨by omega, rfl⟩,
      columnTime r.timestamp, ?_, fun h => hfirst (by omega), fun h => hlast (by omega)⟩
    rw [hrow, OrderedMap.mem_entries, find?_writeRecords]
    exact ⟨r, hr, htable, rfl, rfl, hv⟩

theorem rowTime_eq {timestamp : Nat} (h : timestamp < 2 ^ 55) :
    rowTime timestamp = timestamp / 2 ^ 23 := by
  unfold rowTime RowTimeInBits
  rw [Nat.shiftRight_eq_div_pow]
  omega

theorem columnTime_eq (timestamp : Nat) : columnTime timestamp = timestamp % 2 ^ 23 :=
  Nat.and_two_pow_sub_one_eq_mod timestamp 23

/-- Among the times whose row number does not wrap only those of the window are
fetched. -/
theorem Fetched.in_window {from_time end_time timestamp : Nat}
    (h : Fetched from_time end_time timestamp) (hts : timestamp < 2 ^ 55)
    (hfrom : from_time < 2 ^ 55) (hend : end_time < 2 ^ 55) :
    from_time ≤ timestamp ∧ timestamp ≤ end_time := by
  obtain ⟨hge, hlt, hfirst, -⟩ := h
  rw [rowTime_eq hts, rowTime_eq hfrom, columnTime_eq, columnTime_eq] at *
  rw [rowTime_eq hend] at hlt
  omega

/-- The ids listed are those of the window if and only if the fetched records and
those of the window have the same keys. -/
theorem listsWindow_iff_keys (records : List ObjectRecord) (table : String)
    (from_time end_time : Nat) :
    ListsWindow records table from_time end_time ↔
      ∀ v, (∃ r, Kept records r ∧ r.table = table ∧ r.objectkey = v ∧
          Fetched from_time end_time r.timestamp) ↔
        ∃ r ∈ records, r.table = table ∧ r.objectkey = v ∧
          from_time ≤ r.timestamp ∧ r.timestamp ≤ end_time := by
  obtain ⟨values, hvalues, hnodup, hmem⟩ :=
    mem_process_object_values records table from_time end_time
  constructor
  · rintro ⟨values', hvalues', -, hmem'⟩ v
    obtain rfl : values = values' := Option.some.inj (hvalues.symm.trans hvalues')
    exact (hmem v).symm.trans (hmem' v)
  · intro h
    exact ⟨values, hvalues, hnodup, fun v => (hmem v).trans (h v)⟩

/-- The ids listed are those of the window if and only if each of these has a kept
record that is fetched, and only these have. -/
theorem lists_window_iff (records : List ObjectRecord) (table : String)
    (from_time end_time : Nat) :
    ListsWindow records table from_time end_time ↔
      (∀ r ∈ records, r.table = table → from_time ≤ r.timestamp → r.timestamp ≤ end_time →
        ∃ r', Kept records r' ∧ r'.table = table ∧ r'.objectkey = r.objectkey ∧
          Fetched from_time end_time r'.timestamp) ∧
      (∀ r, Kept records r → r.table = table → Fetched from_time end_time r.timestamp →
        ∃ r' ∈ records, r'.table = table ∧ r'.objectkey = r.objectkey ∧
          from_time ≤ r'.timestamp ∧ r'.timestamp ≤ end_time) := by
  rw [listsWindow_iff_keys]
  constructor
  · intro h
    constructor
    · intro r hr htable hfrom hend
      exact (h _).mpr ⟨r, hr, htable, rfl, hfrom, hend⟩
    · intro r hr htable hfetched
      exact (h _).mp ⟨r, hr, htable, rfl, hfetched⟩
  · rintro ⟨hlisted, honly⟩ v
    constructor
    · rintro ⟨r, hr, htable, rfl, hfetched⟩
      exact honly r hr htable hfetched
    · rintro ⟨r, hr, htable, rfl, hfrom, hend⟩
      exact hlisted r hr htable hfrom hend

/-- For times whose row number does not wrap, nothing else can be listed. -/
theorem listsWindow_iff_of_lt {records : List ObjectRecord} {table : String}
    {from_time end_time : Nat} (hrecords : ∀ r ∈ records, r.timestamp < 2 ^ 55)
    (hfrom : from_time < 2 ^ 55) (hend : end_time < 2 ^ 55) :
    ListsWindow records table from_time end_time ↔
      ∀ r ∈ records, r.table = table → from_time ≤ r.timestamp → r.timestamp ≤ end_time →
        ∃ r', Kept records r' ∧ r'.table = table ∧ r'.objectkey = r.objectkey ∧
          Fetched from_time end_time r'.timestamp := by
  rw [listsWindow_iff_keys]
  constructor
  · intro h r hr htable hge hle
    exact (h _).mpr ⟨r, hr, htable, rfl, hge, hle⟩
  · intro hlisted v
    constructor
    · rintro ⟨r, hkept, htable, hkey, hfetched⟩
      exact ⟨r, hkept.mem, htable, hkey,
        hfetched.in_window (hrecords r hkept.mem) hfrom hend⟩
    · rintro ⟨r, hr, htable, rfl, hge, hle⟩
      exact hlisted r hr htable hge hle

/-- A window inside one row lists nothing. -/
theorem not_listsWindow_one_row :
    process_object_values (readRows (writeRecords [⟨"ObjectVNTable", "vn1", 1000000⟩]))
      "ObjectVNTable" 0 2000000 = some [] ∧
    ¬ ListsWindow [⟨"ObjectVNTable", "vn1", 1000000⟩] "ObjectVNTable" 0 2000000 := by
  have hrun : process_object_values (readRows (writeRecords [⟨"ObjectVNTable", "vn1", 1000000⟩]))
      "ObjectVNTable" 0 2000000 = some [] := by decide +kernel
  refine ⟨hrun, ?_⟩
  rintro ⟨values, hvalues, -, hmem⟩
  obtain rfl : [] = values := Option.some.inj (hrun.symm.trans hvalues)
  exact absurd ((hmem "vn1").mpr ⟨_, List.mem_singleton_self _, rfl, rfl, by decide, by decide⟩)
    List.not_mem_nil

end TfAnalytics.QueryEngine
