import Mathlib.Data.Nat.Bitwise
import Mathlib.Tactic.NormNum
import Mathlib.Tactic.Ring

/-!
# Query engine — query windows and time slices

The time part of a query, as `query.cc`, `utils.cc` and `db_query.cc` compute
it. A query names a start and an end time; `AnalyticsQuery::Init` parses both
against the clock, clamps them against the TTL of the table and the current
time, cuts the window into slices and keeps the slice of its own
`parallel_batch_num`. `get_query_details` lists the slices of the whole
window, `DbQueryUnit::populate_row_keys` turns a slice into row keys (one `T2`
bucket of `2^23` microseconds each) and `DbQueryUnit::cb` drops the columns of
a fetched bucket whose timestamp is outside the slice.

`uint64_t` values are `Nat`s and every operation that can wrap says so
(`add64`, `sub64`, `mul64`). `stringToInteger` lives outside the repository and
is a parameter of the environment. One `Init` reads the clock three times
(once for the clamps, once in each `parse_time`), so a `Clock` has three
readings.
-/

namespace TfAnalytics.QueryEngine

-- ---------------------------------------------------------------------------
-- Constants of viz.sandesh and unsigned 64-bit arithmetic
-- ---------------------------------------------------------------------------

def RowTimeInBits : Nat := 23
def RowTimeInMask : Nat := 0x7fffff
def CacheTimeInAdditionalBits : Nat := 5
def PARTITION_MIN : Nat := 0
def PARTITION_MAX : Nat := 8

def MESSAGE_TABLE : String := "MessageTable"
def OBJECT_VALUE_TABLE : String := "ObjectValueTable"
def FLOW_TABLE : String := "FlowRecordTable"
def FLOW_SERIES_TABLE : String := "FlowSeriesTable"
def SESSION_SERIES_TABLE : String := "SessionSeriesTable"
def SESSION_RECORD_TABLE : String := "SessionRecordTable"
def STAT_VT_PREFIX : String := "StatTable"
def STAT_VT_FIELDNAMES_PREFIX : String := "StatTable.FieldNames."

def add64 (a b : Nat) : Nat := (a + b) % 2 ^ 64
def sub64 (a b : Nat) : Nat := (a + 2 ^ 64 - b) % 2 ^ 64
def mul64 (a b : Nat) : Nat := (a * b) % 2 ^ 64

theorem add64_eq {a b : Nat} (h : a + b < 2 ^ 64) : add64 a b = a + b :=
  Nat.mod_eq_of_lt h

theorem sub64_eq {a b : Nat} (hle : b ≤ a) (ha : a < 2 ^ 64) : sub64 a b = a - b := by
  unfold sub64
  omega

theorem mul64_eq {a b : Nat} (h : a * b < 2 ^ 64) : mul64 a b = a * b :=
  Nat.mod_eq_of_lt h

-- ---------------------------------------------------------------------------
-- Table kinds
-- ---------------------------------------------------------------------------

def is_stat_table_query (tname : String) : Bool :=
  STAT_VT_PREFIX.toList.isPrefixOf tname.toList

def is_stat_fieldnames_table_query (tname : String) : Bool :=
  STAT_VT_FIELDNAMES_PREFIX.toList.isPrefixOf tname.toList

def is_session_query (tname : String) : Bool :=
  tname == SESSION_SERIES_TABLE || tname == SESSION_RECORD_TABLE

def is_flow_query (tname : String) : Bool :=
  tname == FLOW_SERIES_TABLE || tname == FLOW_TABLE

def is_message_table_query (tname : String) : Bool := tname == MESSAGE_TABLE

def is_object_table_query (tname : String) : Bool :=
  tname != MESSAGE_TABLE && tname != FLOW_TABLE && tname != FLOW_SERIES_TABLE &&
  tname != OBJECT_VALUE_TABLE && !is_stat_table_query tname && !is_session_query tname

inductive TtlType where
  | FLOWDATA_TTL
  | STATSDATA_TTL
  | CONFIGAUDIT_TTL
  | GLOBAL_TTL
  deriving DecidableEq, Repr

/-- The TTL class `Init` picks for a table. -/
def ttlType (table : String) : TtlType :=
  if is_stat_table_query table then .STATSDATA_TTL
  else if is_flow_query table || is_session_query table then .FLOWDATA_TTL
  else if is_object_table_query table then .CONFIGAUDIT_TTL
  else .GLOBAL_TTL

-- ---------------------------------------------------------------------------
-- parse_time
-- ---------------------------------------------------------------------------

/-- `std::string::substr`; past the end it throws `std::out_of_range`. -/
def substr (s : List Char) (pos len : Nat) : Option (List Char) :=
  if pos ≤ s.length then some ((s.drop pos).take len) else none

/-- `find_last_of` of one character, stored in an `int` (`npos` is -1). -/
def find_last_of (s : List Char) (c : Char) : Int :=
  match s.reverse.findIdx? (· == c) with
  | none => -1
  | some i => (s.length : Int) - 1 - i

inductive TimeResult where
  | ok (usec_time : Nat)
  | fail
  | throws
  deriving DecidableEq, Repr

/-- The offset part of `parse_time`: the number between the sign and the unit,
scaled by the unit. The units are tried in the order `h`, `m`, `s`, `d`. -/
def parse_offset (stringToInteger : List Char → Option Nat) (s : List Char) : TimeResult :=
  let number (scale : Nat) : TimeResult :=
    match substr s 5 (sub64 s.length 7) with
    | none => .throws
    | some digits =>
      match stringToInteger digits with
      | none => .fail
      | some offset_usec => .ok (mul64 offset_usec scale)
  if find_last_of s 'h' > 0 then number (3600 * 1000000)
  else if find_last_of s 'm' > 0 then number (60 * 1000000)
  else if find_last_of s 's' > 0 then number 1000000
  else if find_last_of s 'd' > 0 then number (24 * 3600 * 1000000)
  else .fail

/-- `parse_time`: `"now"`, `"now+N<unit>"`, `"now-N<unit>"` (quoted) or a plain
number of microseconds. -/
def parse_time (stringToInteger : List Char → Option Nat) (now : Nat)
    (relative_time : List Char) : TimeResult :=
  if relative_time = "\"now\"".toList then .ok now
  else
    match substr relative_time 1 3 with
    | none => .throws
    | some head =>
      if head = "now".toList then
        match parse_offset stringToInteger relative_time with
        | .ok offset_usec =>
          if substr relative_time 1 4 = some "now+".toList then .ok (add64 now offset_usec)
          else if substr relative_time 1 4 = some "now-".toList then .ok (sub64 now offset_usec)
          else .fail
        | r => r
      else
        match stringToInteger relative_time with
        | none => .fail
        | some usec => .ok usec

-- ---------------------------------------------------------------------------
-- AnalyticsQuery::Init
-- ---------------------------------------------------------------------------

/-- What `Init` reads of `json_api_data` for the window. -/
structure JsonApiData where
  table : Option String
  start_time : Option String
  end_time : Option String

/-- The clock readings of one `Init`: `UTCTimestampUsec` for the clamps, then
the two calls inside `parse_time`. -/
structure Clock where
  limits : Nat
  start_time : Nat
  end_time : Nat

/-- All three readings of one `Init` give the same instant. -/
def Clock.at (now : Nat) : Clock := ⟨now, now, now⟩

/-- What `Init` uses besides the request: the engine's TTLs (hours) and slice
bound, and the library conversion. -/
structure Env where
  ttlmap_ : TtlType → Nat
  max_slice_ : Nat
  stringToInteger : List Char → Option Nat

/-- The outcome of the `WhereQuery`, `SelectQuery` and `PostProcessingQuery`
constructors `Init` calls in between: their `status_details`, and whether the
select asks for the `ObjectId`s of an object table. -/
structure Components where
  where_status : Int
  select_status : Int
  post_status : Int
  ObjectIdQuery : Bool

inductive InitError where
  | status_details (code : Int)
  | out_of_range
  deriving DecidableEq, Repr

def EBADMSG : Int := 74

structure AnalyticsQuery where
  table_ : String
  from_time_ : Nat
  end_time_ : Nat
  original_from_time : Nat
  original_end_time : Nat
  time_slice : Nat
  parallel_batch_num : Nat
  total_parallel_batches : Nat
  parallelize_query_ : Bool
  processing_needed : Bool
  deriving Repr

def runParseTime (env : Env) (now : Nat) (text : Option String) : Except InitError Nat :=
  match text with
  | none => .error (.status_details EBADMSG)
  | some s =>
    match parse_time env.stringToInteger now s.toList with
    | .ok t => .ok t
    | .fail => .error (.status_details EBADMSG)
    | .throws => .error .out_of_range

/-- `min_start_time`: the clock less the table's TTL. -/
def min_start_time (env : Env) (clock : Clock) (table : String) : Nat :=
  sub64 clock.limits (mul64 (env.ttlmap_ (ttlType table)) (60 * 60 * 1000000))

/-- A FieldNames query is widened to the left up to one cache window. -/
def widenFieldNames (table : String) (min_start from_time_ end_time_ : Nat) : Nat :=
  if is_stat_fieldnames_table_query table then
    let time_period := sub64 end_time_ from_time_
    let cache_time := 2 ^ (RowTimeInBits + CacheTimeInAdditionalBits)
    if time_period < cache_time then
      let widened := sub64 from_time_ (cache_time - time_period)
      if widened < min_start then min_start else widened
    else from_time_
  else from_time_

/-- The window after parsing and clamping, before slicing. -/
def clampWindow (env : Env) (clock : Clock) (table : String) (req_from req_end : Nat) :
    Nat × Nat :=
  let min_start := min_start_time env clock table
  let from_time_ := if req_from < min_start then min_start else req_from
  let end_time_ := if req_end > clock.limits then clock.limits else req_end
  let from_time_ := widenFieldNames table min_start from_time_ end_time_
  -- just to take care of issues with Analytics start time
  (if from_time_ > end_time_ then sub64 end_time_ 1 else from_time_, end_time_)

def can_parallelize_query (table : String) : Bool := table != OBJECT_VALUE_TABLE

/-- The slice length of a window. -/
def timeSlice (env : Env) (table : String) (total_parallel_batches from_time_ end_time_ : Nat) :
    Nat :=
  if can_parallelize_query table then
    let smax := 2 ^ RowTimeInBits * env.max_slice_
    let time_slice := add64 (sub64 end_time_ from_time_ / total_parallel_batches) 1
    let time_slice := if time_slice < 2 ^ RowTimeInBits then 2 ^ RowTimeInBits else time_slice
    if time_slice > smax then smax else time_slice
  else sub64 end_time_ from_time_

/-- The table name without its quotes: `substr(1, size() - 2)`. -/
def unquote (s : List Char) : Option (List Char) := substr s 1 (sub64 s.length 2)

/-- The last part of `Init`: keep the slice of `parallel_batch_num`. -/
def sliceWindow (env : Env) (table : String) (parallel_batch_num total_parallel_batches : Nat)
    (window : Nat × Nat) : AnalyticsQuery :=
  let original_from_time := window.1
  let original_end_time := window.2
  let time_slice := timeSlice env table total_parallel_batches window.1 window.2
  let from_time_ := add64 original_from_time (mul64 time_slice parallel_batch_num)
  let end_time_ := add64 from_time_ time_slice
  { table_ := table
    from_time_ := from_time_
    end_time_ :=
      if from_time_ ≥ original_end_time then end_time_
      else if end_time_ > original_end_time then original_end_time else end_time_
    original_from_time := original_from_time
    original_end_time := original_end_time
    time_slice := time_slice
    parallel_batch_num := parallel_batch_num
    total_parallel_batches := total_parallel_batches
    parallelize_query_ := can_parallelize_query table
    processing_needed := !(from_time_ ≥ original_end_time) }

/-- The table `Init` ends with: an `ObjectId` query on an object table reads
`OBJECT_VALUE_TABLE` instead. -/
def finalTable (comp : Components) (table : String) : String :=
  if is_object_table_query table && comp.ObjectIdQuery then OBJECT_VALUE_TABLE else table

/-- The table and the clamped window of a request, for one set of clock
readings. -/
def queryWindow (env : Env) (clock : Clock) (json_api_data : JsonApiData) :
    Except InitError (String × Nat × Nat) := do
  let some quoted := json_api_data.table | .error (.status_details EBADMSG)
  let some tname := unquote quoted.toList | .error .out_of_range
  let table := String.ofList tname
  let req_from ← runParseTime env clock.start_time json_api_data.start_time
  let req_end ← runParseTime env clock.end_time json_api_data.end_time
  .ok (table, clampWindow env clock table req_from req_end)

/-- `AnalyticsQuery::Init`, as far as the window depends on it. -/
def Init (env : Env) (clock : Clock) (json_api_data : JsonApiData) (comp : Components)
    (parallel_batch_num total_parallel_batches : Nat) : Except InitError AnalyticsQuery := do
  let (table, window) ← queryWindow env clock json_api_data
  if comp.where_status ≠ 0 then .error (.status_details comp.where_status)
  else if comp.select_status ≠ 0 then .error (.status_details comp.select_status)
  else if comp.post_status ≠ 0 then .error (.status_details comp.post_status)
  else
    .ok (sliceWindow env (finalTable comp table) parallel_batch_num total_parallel_batches window)

-- ---------------------------------------------------------------------------
-- get_query_details
-- ---------------------------------------------------------------------------

/-- The chunk loop of `get_query_details`. `none`: still running when the fuel
ran out. -/
def chunkLoop (time_slice original_end_time : Nat) : Nat → Nat → Option (List Nat)
  | 0, _ => none
  | fuel + 1, chunk_start =>
    if chunk_start < original_end_time then
      let size :=
        if add64 chunk_start time_slice ≤ original_end_time then time_slice
        else sub64 original_end_time chunk_start
      (chunkLoop time_slice original_end_time fuel (add64 chunk_start time_slice)).map (size :: ·)
    else some []

/-- `chunk_sizes` of an `Init`ialised query. -/
def AnalyticsQuery.chunk_sizes (q : AnalyticsQuery) (fuel : Nat) : Option (List Nat) :=
  chunkLoop q.time_slice q.original_end_time fuel q.original_from_time

-- ---------------------------------------------------------------------------
-- DbQueryUnit: row keys and the time filter
-- ---------------------------------------------------------------------------

inductive DbDataValue where
  | uint32 (n : Nat)
  | uint8 (n : Nat)
  | string (s : String)
  deriving DecidableEq, Repr

structure DbQueryUnit where
  row_key_suffix : List DbDataValue
  t_only_row : Bool
  t_only_col : Bool

/-- `for (uint32_t t2 = t2_start; t2 <= t2_end; t2++)`: with `t2_end` at the
largest `uint32_t` the comparison never fails and the loop does not end. -/
def t2Range (t2_start t2_end : Nat) : Option (List Nat) :=
  if t2_start ≤ t2_end ∧ t2_end = 2 ^ 32 - 1 then none
  else some (List.range' t2_start (t2_end + 1 - t2_start))

def partitions : List Nat := List.range' PARTITION_MIN (PARTITION_MAX + 1 - PARTITION_MIN)

/-- The start of a row key: `T2`, and partition 0 for the stat tables. -/
def rowKeyStart (q : AnalyticsQuery) (t2 : Nat) : List DbDataValue :=
  .uint32 t2 :: (if is_stat_table_query q.table_ then [.uint8 0] else [])

/-- The row keys of one `T2` bucket. -/
def rowKeysOf (q : AnalyticsQuery) (unit : DbQueryUnit) (t2 : Nat) : List (List DbDataValue) :=
  let rowkey := rowKeyStart q t2
  if is_flow_query q.table_ || is_session_query q.table_ then
    partitions.flatMap fun part_no =>
      if is_flow_query q.table_ then
        [0, 1].flatMap fun is_si =>
          unit.row_key_suffix.map fun v => rowkey ++ [.uint8 part_no, .uint8 is_si, v]
      else [rowkey ++ .uint8 part_no :: unit.row_key_suffix]
  else
    let rowkey := if unit.t_only_row then rowkey else rowkey ++ unit.row_key_suffix
    if unit.t_only_col then partitions.map fun part_no => rowkey ++ [.uint8 part_no]
    else [rowkey]

/-- `DbQueryUnit::populate_row_keys`; `t2_start` and `t2_end` are `uint32_t`. -/
def populate_row_keys (q : AnalyticsQuery) (unit : DbQueryUnit) :
    Option (List (List DbDataValue)) :=
  let t2_start := (q.from_time_ >>> RowTimeInBits) % 2 ^ 32
  let t2_end := (q.end_time_ >>> RowTimeInBits) % 2 ^ 32
  (t2Range t2_start t2_end).map fun t2s => t2s.flatMap (rowKeysOf q unit)

/-- `TIMESTAMP_FROM_T2T1`. -/
def timestampFromT2T1 (t2 t1 : Nat) : Nat :=
  t2 <<< RowTimeInBits ||| (t1 &&& RowTimeInMask)

/-- The time filter of `DbQueryUnit::cb` on a column of row `t2` whose name
carries `t1`: `false` is the `continue`. -/
def cbTimeFilter (q : AnalyticsQuery) (t2 t1 : Nat) : Bool :=
  let timestamp := timestampFromT2T1 t2 t1
  !(timestamp < q.from_time_ || timestamp > q.end_time_)

end TfAnalytics.QueryEngine
