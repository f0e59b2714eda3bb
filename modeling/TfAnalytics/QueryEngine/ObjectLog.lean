import TfAnalytics.QueryEngine.StatTags
import TfAnalytics.QueryEngine.WhereQuery
import TfAnalytics.QueryEngine.ObjectIds
import TfAnalytics.QueryEngine.Filters
import Mathlib.Data.Prod.Lex
import Mathlib.Data.List.Lex

/-!
# Query engine — queries on an object table

The collector stores a message with up to six object names, each a table, `:` and a
key, in six columns of `MessageTablev2`, with the time row in front
(`DbHandler::MessageTableOnlyInsert`). A query on an object table looks for a name, or
with no `ObjectId` for the table and `:`, in each of the six columns and unites the
six answers (`WhereQuery::handle_object_type_value`). Which object a row is about is
worked out again from its columns (`SelectQuery::get_query_column_value`).

A query that selects `ObjectId` only never looks at its WHERE terms
(`QueryEngine.ObjectIds`).

The database is assumed to answer with the rows that satisfy all index conditions.
Filters, sorting and limits choose among the rows modelled here.

Main results:

* `whereVecs_eq` — the six sub-queries.
* `mem_whereResult_iff` — the rows that are found.
-/

namespace TfAnalytics.QueryEngine.ObjectLog

open TfAnalytics.Lib TfAnalytics.Collector

-- ---------------------------------------------------------------------------
-- DbHandler::MessageTableOnlyInsert
-- ---------------------------------------------------------------------------

/-- `GenDb::DbDataValue`. -/
inductive DbDataValue where
  | blank
  | text (s : Text)
  | number (n : Nat)
  | uuid (bytes : Text)
  deriving DecidableEq

structure Message where
  timestamp : Nat
  partition_no : Nat
  unm : Text
  source : Text
  message_type : Text
  module : Text
  object_names : List Text
  ip : Option Text
  pid : Option Nat
  category : Text
  level : Nat
  node_type : Text
  instance_id : Text
  sequence_num : Nat
  type : Nat
  data : Text

namespace Message

variable (m : Message)

def T2 : Nat := rowTime m.timestamp

/-- The names that are written. -/
def storedNames : List Text := m.object_names.take MSG_TABLE_MAX_OBJECTS_PER_MSG

def objectColumns : List DbDataValue :=
  m.storedNames.map (fun object_name => .text (PrependT2 m.T2 object_name)) ++
    List.replicate (MSG_TABLE_MAX_OBJECTS_PER_MSG - m.object_names.length) .blank

/-- The columns as `message_table_query_get_row` gives them, in the order of the
schema. -/
def info : List DbDataValue :=
  [.number m.T2, .number m.partition_no, .number (columnTime m.timestamp), .uuid m.unm,
    .text (PrependT2 m.T2 m.source), .text (PrependT2 m.T2 m.message_type),
    .text (PrependT2 m.T2 m.module)] ++
  (m.objectColumns ++
    [m.ip.elim .blank .text, m.pid.elim .blank .number, .text m.category, .number m.level,
      .text m.node_type, .text m.instance_id, .number m.sequence_num, .number m.type,
      .text m.data])

/-- The time of the row, put together from `T2` and `T1`. -/
def resultTime : Nat := timestampFromT2T1 m.T2 (columnTime m.timestamp)

end Message

-- ---------------------------------------------------------------------------
-- The schema of MessageTablev2
-- ---------------------------------------------------------------------------

/-- The column names, in order. -/
def columnNames : List String :=
  ["key", "key2", "column1", "column2", "column3", "column4", "column5", "column6", "column7",
    "column8", "column9", "column10", "column11", "column12", "column13", "column14", "column15",
    "column16", "column17", "column18", "column19", "value"]

/-- `MsgTableColumnToQueryColumn` and whether `MsgTableIndexToIndexType` gives an
index, by the place of the column. -/
def queryColumns : List (String × Bool) :=
  [("MessageTS", false), ("Partition", false), ("T1", false), ("UuidKey", false),
    ("Source", true), ("Messagetype", true), ("ModuleId", true),
    ("ObjectTypeName1", true), ("ObjectTypeName2", true), ("ObjectTypeName3", true),
    ("ObjectTypeName4", true), ("ObjectTypeName5", true), ("ObjectTypeName6", true),
    ("IPAddress", false), ("Pid", false), ("Category", false), ("Level", false),
    ("NodeType", false), ("InstanceId", false), ("SequenceNum", false), ("Type", false),
    ("Xmlmessage", false)]

/-- `index_column_to_column`. -/
def indexColumns : List (String × String) :=
  [("Source", "column3"), ("Messagetype", "column4"), ("ModuleId", "column5"),
    ("ObjectTypeName1", "column6"), ("ObjectTypeName2", "column7"), ("ObjectTypeName3", "column8"),
    ("ObjectTypeName4", "column9"), ("ObjectTypeName5", "column10"),
    ("ObjectTypeName6", "column11")]

/-- `query_column_to_cass_column`. -/
def cassColumn (query_column : String) : Option String := indexColumns.lookup query_column

/-- The keys of `_OBJECT_TABLES`. -/
def objectTables : List String :=
  ["ConfigObjectTable", "ObjectVNTable", "ObjectVMTable", "ObjectVMITable", "ObjectSITable",
    "ObjectLBTable", "ObjectVRouter", "ObjectPRouter", "ObjectBgpPeer", "ObjectBgpRouter",
    "ObjectRoutingInstance", "ObjectXmppConnection", "ObjectXmppPeerInfo", "ObjectCollectorInfo",
    "ObjectAnalyticsAlarmInfo", "ObjectAnalyticsSNMPInfo", "ObjectDatabaseInfo",
    "ObjectConfigDatabaseInfo", "ObjectGeneratorInfo", "ObjectConfigNode", "ServiceChain",
    "ObjectDns", "ObjectQueryTable", "ObjectQueryQid", "ObjectPoolTable", "ObjectOsdTable",
    "ObjectDiskTable", "ObjectServerTable", "ConfigObjectTableByUser",
    "ObjectPhysicalInterfaceTable", "ObjectLogicalInterfaceTable", "ObjectStorageClusterTable",
    "UserDefinedLogStatTable", "ObjectKubernetesManagerNode", "ObjectTagTable",
    "ObjectProjectTable", "ObjectFirewallPolicyTable", "ObjectFirewallRuleTable",
    "ObjectAddressGroupTable", "ObjectServiceGroupTable", "ObjectApplicationPolicySetTable",
    "ObjectJobExecutionTable", "ObjectJobTemplateTable", "ObjectFabricTable"]

/-- What the database compares an index condition with. -/
def textAt (info : List DbDataValue) (column : String) : Option Text :=
  match info[columnNames.idxOf column]? with
  | some (.text s) => some s
  | _ => none

-- ---------------------------------------------------------------------------
-- WhereQuery
-- ---------------------------------------------------------------------------

/-- `populate_where_vec`. -/
def populate (query_col : String) (db_op : DbOp) (value : Text) : Option (List WhereIndexInfo) :=
  (cassColumn query_col).map fun columnN =>
    let val := match db_op with
      | .LIKE => value ++ ['%']
      | .EQ => value
    if val = ['%'] then [] else [⟨columnN, db_op, val⟩]

/-- `get_gendb_op_from_op`, for the operators that are accepted here. -/
def dbOp : MatchOp → Option DbOp
  | .EQUAL => some .EQ
  | .PREFIX => some .LIKE
  | _ => none

structure ObjectTerm where
  name : String
  op : MatchOp
  value : Text

/-- What a term adds to `where_vec`; `none` is an invalid argument. -/
def termInfo (table : Text) (t : ObjectTerm) : Option (List WhereIndexInfo) :=
  if t.name = "Source" ∨ t.name = "ModuleId" ∨ t.name = "Messagetype" then do
    populate t.name (← dbOp t.op) t.value
  else if t.name = "ObjectId" then do
    populate "ObjectTypeName1" (← dbOp t.op) (table ++ ':' :: t.value)
  else
    -- every other name is accepted and nothing is looked up for it
    some []

/-- With no `ObjectId` the table is looked for. -/
def addObjectType (table : Text) (where_vec : List WhereIndexInfo) (object_id_specified : Bool) :
    Option (List WhereIndexInfo) :=
  if object_id_specified then some where_vec
  else (populate "ObjectTypeName1" .LIKE (table ++ [':'])).map (where_vec ++ ·)

/-- `handle_object_type_value`: the index vectors of the six sub-queries. -/
def handle_object_type_value (table : Text) (where_vec : List WhereIndexInfo)
    (object_id_specified : Bool) : Option (List (List WhereIndexInfo)) := do
  let column1 ← cassColumn "ObjectTypeName1"
  let where_vec ← addObjectType table where_vec object_id_specified
  let index := where_vec.findIdx (·.column = column1)
  let others ← (List.range' 2 (MSG_TABLE_MAX_OBJECTS_PER_MSG - 1)).mapM fun i => do
    let columnN ← cassColumn ("ObjectTypeName" ++ toString i)
    some (where_vec.modify index fun where_info => { where_info with column := columnN })
  some (where_vec :: others)

/-- The index vectors for one OR term; no conditions stand for "where *". -/
def whereVecs (table : Text) (terms : List ObjectTerm) : Option (List (List WhereIndexInfo)) := do
  let infos ← terms.mapM (termInfo table)
  handle_object_type_value table infos.flatten (terms.any fun t => t.name = "ObjectId")

/-- `operator<` of the variant: by the type, then by the value. -/
def DbDataValue.rank : DbDataValue → ℕ ×ₗ List ℕ
  | .blank => toLex (0, [])
  | .text s => toLex (1, s.map Char.toNat)
  | .number n => toLex (2, [n])
  | .uuid bytes => toLex (3, bytes.map Char.toNat)

theorem map_toNat_injective : Function.Injective (List.map Char.toNat) :=
  List.map_injective_iff.mpr fun _ _ h => Char.toNat_inj.mp h

theorem DbDataValue.rank_injective : Function.Injective DbDataValue.rank := by
  intro a b h
  cases a <;> cases b <;> simp_all [rank, map_toNat_injective.eq_iff]

instance : LinearOrder DbDataValue := LinearOrder.lift' DbDataValue.rank DbDataValue.rank_injective

/-- One sub-query: the rows of the times and partitions that are read, with all index
conditions, in the time range. -/
def queryResult (messages : List Message) (from_time end_time : Nat)
    (where_vec : List WhereIndexInfo) : WhereResultT DbDataValue :=
  sortUnits ((messages.filter fun m =>
    (rowTime from_time ≤ m.T2 ∧ m.T2 ≤ rowTime end_time ∧ m.partition_no ≤ PARTITION_MAX) ∧
    (where_vec.all fun where_info => (TagPredicate.index where_info).holds m.T2 (textAt m.info)) ∧
    from_time ≤ m.resultTime ∧ m.resultTime ≤ end_time).map fun m => ⟨m.resultTime, m.info⟩)

/-- The result of an OR term: the six answers united. -/
def whereResult (messages : List Message) (from_time end_time : Nat) (table : Text)
    (terms : List ObjectTerm) : Option (WhereResultT DbDataValue) := do
  op_or ((← whereVecs table terms).map (queryResult messages from_time end_time))

-- ---------------------------------------------------------------------------
-- SelectQuery
-- ---------------------------------------------------------------------------

/-- `erase(begin, begin + find_first_of(":") + 1)`: with no `:` nothing is erased. -/
def behindColon (value_str : Text) : Text :=
  if ':' ∈ value_str then (value_str.dropWhile (· ≠ ':')).tail else value_str

def DbDataValueToString : DbDataValue → Text
  | .blank => []
  | .text s => s
  | .number n => Nat.toDigits 10 n
  | .uuid bytes => bytes

/-- The value of a column, and the object id after it. -/
def get_query_column_value (table : Text) (column : String × Bool) (value : DbDataValue)
    (object_id : Text) : DbDataValue × Text :=
  if value ≠ .blank ∧ column.2 = true then
    let value_str := behindColon (DbDataValueToString value)
    if "ObjectTypeName".toList <+: column.1.toList then
      if table <+: value_str then (.text (behindColon value_str), behindColon value_str)
      else (.text (behindColon value_str), object_id)
    else (.text value_str, object_id)
  else (value, object_id)

/-- The loop over the columns of a row: `col_res_map`, where the first entry of a name
counts, and `object_id`. -/
def readColumns (table : Text) (timestamp : Nat) (info : List DbDataValue) :
    List (String × DbDataValue) × Text :=
  (queryColumns.zip info).foldl
    (fun (col_res_map, object_id) (column, value) =>
      let r := get_query_column_value table column value object_id
      let value := if column.1 = "MessageTS" then .number timestamp else r.1
      (col_res_map ++ [(column.1, value)], r.2))
    ([], [])

/-- `SandeshType`, as far as the query engine tells the types apart. -/
inductive SandeshType where
  | SYSTEM | OBJECT | UVE | ALARM | other
  deriving DecidableEq

/-- The field a message of this type is shown in. -/
def SandeshType.log : SandeshType → Option String
  | .SYSTEM => some "SystemLog"
  | .OBJECT | .UVE | .ALARM => some "ObjectLog"
  | .other => none

section

-- the enumerator that has a number
variable (sandeshType : Nat → SandeshType)

/-- A field of the row that is put together; `none` where the row is left out. A
missing or wrong value is an assertion. -/
def process_object_query_specific_select_params (select_column_fields : List String)
    (col_res_map : List (String × DbDataValue)) (object_id : Text) (sel_field : String)
    (cmap : OrderedMap String Text) : Option (OrderedMap String Text) :=
  match col_res_map.lookup "Type" with
  | some (.number type_val) =>
    match (sandeshType type_val).log with
    | none => none
    | some sandesh_type =>
      if sel_field = sandesh_type then
        match col_res_map.lookup "Xmlmessage" with
        | some (.text xml_data) => some (cmap.insert sel_field xml_data)
        | _ => none
      else if sel_field = "ObjectId" then some (cmap.insert sel_field object_id)
      else if sandesh_type ∈ select_column_fields then some (cmap.insert sel_field [])
      else none
  | _ => none

/-- One turn of the loop over the fields. -/
def selectField (select_column_fields : List String) (col_res_map : List (String × DbDataValue))
    (object_id : Text) (cmap : OrderedMap String Text) (sel_field : String) :
    Option (OrderedMap String Text) :=
  match col_res_map.lookup sel_field with
  | none =>
    process_object_query_specific_select_params sandeshType select_column_fields col_res_map
      object_id sel_field cmap
  | some value => some (cmap.insert sel_field (DbDataValueToString value))

/-- One row of the result. -/
def selectRow (table : Text) (select_column_fields : List String)
    (unit : QueryResultUnit DbDataValue) : Option (OrderedMap String Text) :=
  let (col_res_map, object_id) := readColumns table unit.timestamp unit.info
  let object_id :=
    if object_id.isEmpty then
      ((col_res_map.lookup "ObjectTypeName1").map DbDataValueToString).getD []
    else object_id
  select_column_fields.foldlM
    (selectField sandeshType select_column_fields col_res_map object_id) .empty

/-- `ObjectIdQuery()`. -/
def ObjectIdQuery (select_column_fields : List String) : Bool := select_column_fields = ["ObjectId"]

structure ObjectQuery where
  table : String
  terms : List ObjectTerm
  select_column_fields : List String
  from_time : Nat
  end_time : Nat

/-- The rows of a query that is accepted: a select of the `ObjectId` alone reads the
object value table and nothing else. -/
def ObjectQuery.rows (q : ObjectQuery) (messages : List Message) (records : List ObjectRecord) :
    Option (List (OrderedMap String Text)) := do
  let _ ← whereVecs q.table.toList q.terms
  if ObjectIdQuery q.select_column_fields then
    (process_object_values (readRows (writeRecords records)) q.table q.from_time q.end_time).map
      fun values => values.map fun v => OrderedMap.empty.insert "ObjectId" v.toList
  else
    (whereResult messages q.from_time q.end_time q.table.toList q.terms).map fun units =>
      units.filterMap (selectRow sandeshType q.table.toList q.select_column_fields)

end

-- ---------------------------------------------------------------------------
-- The index conditions of the six sub-queries
-- ---------------------------------------------------------------------------

/-- The columns of the object names. -/
def objectCassColumns : List String :=
  ["column6", "column7", "column8", "column9", "column10", "column11"]

theorem objectTables_plain : ∀ t ∈ objectTables, ':' ∉ t.toList ∧ '%' ∉ t.toList := by
  decide +kernel

theorem populate_object (table : Text) (db_op : DbOp) (value : Text) :
    populate "ObjectTypeName1" db_op (table ++ ':' :: value) =
      some [⟨"column6", db_op, match db_op with
        | .LIKE => table ++ ':' :: value ++ ['%']
        | .EQ => table ++ ':' :: value⟩] := by
  have hcolumn : cassColumn "ObjectTypeName1" = some "column6" := by decide
  have hcolon : ∀ val : Text, ':' ∈ val → val ≠ ['%'] := by
    rintro val hmem rfl
    exact absurd hmem (by decide)
  unfold populate
  rw [hcolumn, Option.map_some]
  cases db_op with
  | EQ => simp only [if_neg (hcolon (table ++ ':' :: value) (by simp))]
  | LIKE => simp only [if_neg (hcolon (table ++ ':' :: value ++ ['%']) (by simp))]

/-- Only a term on `ObjectId` is looked up in an object column. -/
theorem column_of_termInfo {table : Text} {t : ObjectTerm} {infos : List WhereIndexInfo}
    (hname : t.name ≠ "ObjectId") (h : termInfo table t = some infos) :
    ∀ info ∈ infos, info.column ≠ "column6" := by
  intro info hmem
  have hcolumn : ∀ name, name = "Source" ∨ name = "ModuleId" ∨ name = "Messagetype" →
      ∀ c, cassColumn name = some c → c ≠ "column6" := by
    rintro name (rfl | rfl | rfl) c hc <;> revert hc <;> revert c <;> decide
  unfold termInfo at h
  split at h
  next hindexed =>
    obtain ⟨db_op, -, hpopulate⟩ := Option.bind_eq_some_iff.mp h
    obtain ⟨c, hc, hinfos⟩ := Option.map_eq_some_iff.mp hpopulate
    have hne := hcolumn _ hindexed c hc
    have hor : ∀ val : Text, info ∈ (if val = ['%'] then []
        else [(⟨c, db_op, val⟩ : WhereIndexInfo)]) → info.column = c := by
      intro val hval
      split at hval
      · exact absurd hval List.not_mem_nil
      · rw [List.mem_singleton.mp hval]
    rw [hor _ (hinfos ▸ hmem)]
    exact hne
  next =>
    obtain rfl := Option.some.inj h
    exact absurd hmem List.not_mem_nil

theorem modify_append_cons {α : Type} (before : List α) (x : α) (after : List α) (f : α → α) :
    (before ++ x :: after).modify before.length f = before ++ f x :: after := by
  induction before with
  | nil => rfl
  | cons y before ih => simpa using ih

/-- The condition on the first object column is put on each of the others. -/
theorem handle_object_type_value_eq {table : Text} {specified : Bool}
    {where_vec before after : List WhereIndexInfo} {db_op : DbOp} {value : Text}
    (hvec : addObjectType table where_vec specified =
      some (before ++ ⟨"column6", db_op, value⟩ :: after))
    (hbefore : ∀ info ∈ before, info.column ≠ "column6") :
    handle_object_type_value table where_vec specified =
      some (objectCassColumns.map fun column => before ++ ⟨column, db_op, value⟩ :: after) := by
  have hcolumn : cassColumn "ObjectTypeName1" = some "column6" := by decide
  have hindex : (before ++ (⟨"column6", db_op, value⟩ : WhereIndexInfo) :: after).findIdx
      (·.column = "column6") = before.length := by
    have hnone : before.findIdx (fun info => decide (info.column = "column6")) = before.length :=
      List.findIdx_eq_length_of_false fun info hinfo => decide_eq_false (hbefore info hinfo)
    rw [List.findIdx_append, hnone, if_neg (Nat.lt_irrefl _), List.findIdx_cons]
    simp
  rw [handle_object_type_value, hcolumn]
  simp only [Option.bind_eq_bind, Option.bind_some, hvec, hindex, modify_append_cons]
  rfl

-- ---------------------------------------------------------------------------
-- The rows that are found
-- ---------------------------------------------------------------------------

/-- The query asks for one object, or has no term on `ObjectId`. -/
def Asks (terms : List ObjectTerm) : Option Text → Prop
  | some X => ∃ before after, terms = before ++ ⟨"ObjectId", .EQUAL, X⟩ :: after ∧
      ∀ t ∈ before ++ after, t.name ≠ "ObjectId"
  | none => ∀ t ∈ terms, t.name ≠ "ObjectId"

/-- The condition on the object columns. -/
def objectCondition (table : Text) : Option Text → DbOp × Text
  | some X => (.EQ, table ++ ':' :: X)
  | none => (.LIKE, table ++ [':', '%'])

/-- The conditions of the terms, where they are accepted. -/
def infosOf (table : Text) (terms : List ObjectTerm) : List WhereIndexInfo :=
  terms.flatMap fun t => (termInfo table t).getD []

theorem mapM_termInfo {table : Text} {terms : List ObjectTerm} {infos : List (List WhereIndexInfo)}
    (h : terms.mapM (termInfo table) = some infos) :
    infos.flatten = infosOf table terms ∧ ∀ t ∈ terms, (termInfo table t).isSome := by
  induction terms generalizing infos with
  | nil =>
    obtain rfl : [] = infos := by simpa using h
    exact ⟨rfl, fun t ht => absurd ht List.not_mem_nil⟩
  | cons t terms ih =>
    rw [List.mapM_cons] at h
    obtain ⟨info, hinfo, h⟩ := Option.bind_eq_some_iff.mp h
    obtain ⟨rest, hrest, h⟩ := Option.bind_eq_some_iff.mp h
    obtain rfl : info :: rest = infos := Option.some.inj h
    obtain ⟨hflat, hall⟩ := ih hrest
    refine ⟨?_, List.forall_mem_cons.mpr ⟨by rw [hinfo]; rfl, hall⟩⟩
    rw [List.flatten_cons, hflat, infosOf, infosOf, List.flatMap_cons, hinfo]
    rfl

theorem mapM_termInfo_isSome {table : Text} {terms : List ObjectTerm}
    (h : ∀ t ∈ terms, (termInfo table t).isSome) : (terms.mapM (termInfo table)).isSome := by
  induction terms with
  | nil => rfl
  | cons t terms ih =>
    obtain ⟨ht, hterms⟩ := List.forall_mem_cons.mp h
    obtain ⟨info, hinfo⟩ := Option.isSome_iff_exists.mp ht
    obtain ⟨infos, hinfos⟩ := Option.isSome_iff_exists.mp (ih hterms)
    rw [List.mapM_cons, hinfo, hinfos]
    rfl

theorem column_of_infosOf {table : Text} {terms : List ObjectTerm}
    (h : ∀ t ∈ terms, t.name ≠ "ObjectId") :
    ∀ info ∈ infosOf table terms, info.column ≠ "column6" := by
  intro info hinfo
  obtain ⟨t, ht, hmem⟩ := List.mem_flatMap.mp hinfo
  cases hterm : termInfo table t with
  | none =>
    rw [hterm] at hmem
    exact absurd hmem List.not_mem_nil
  | some infos =>
    rw [hterm] at hmem
    exact column_of_termInfo (h t ht) hterm info hmem

/-- The sub-queries differ in the object column they look at, and in nothing else. -/
theorem whereVecs_eq {table : Text} {terms : List ObjectTerm} {asked : Option Text}
    (hasks : Asks terms asked) (hvalid : ∀ t ∈ terms, (termInfo table t).isSome) :
    ∃ before after, (∀ info, info ∈ before ++ after ↔
        info ∈ infosOf table (terms.filter (·.name ≠ "ObjectId"))) ∧
      whereVecs table terms = some (objectCassColumns.map fun column =>
        before ++ ⟨column, (objectCondition table asked).1, (objectCondition table asked).2⟩ ::
          after) := by
  obtain ⟨infos, hinfos⟩ := Option.isSome_iff_exists.mp (mapM_termInfo_isSome hvalid)
  have hflat := (mapM_termInfo hinfos).1
  rw [whereVecs, hinfos]
  simp only [Option.bind_eq_bind, Option.bind_some, hflat]
  cases asked with
  | some X =>
    obtain ⟨before, after, rfl, hothers⟩ := hasks
    have hname : (before ++ ⟨"ObjectId", .EQUAL, X⟩ :: after).any (fun t => t.name = "ObjectId") =
        true := by simp
    have hterm : termInfo table ⟨"ObjectId", .EQUAL, X⟩ =
        some [⟨"column6", .EQ, table ++ ':' :: X⟩] := populate_object table .EQ X
    refine ⟨infosOf table before, infosOf table after, fun info => ?_, ?_⟩
    · have hkeep : ∀ l : List ObjectTerm, (∀ t ∈ l, t.name ≠ "ObjectId") →
          l.filter (·.name ≠ "ObjectId") = l :=
        fun l hl => List.filter_eq_self.mpr fun t ht => decide_eq_true (hl t ht)
      rw [List.filter_append, List.filter_cons, if_neg (by simp),
        hkeep before fun t ht => hothers t (List.mem_append_left after ht),
        hkeep after fun t ht => hothers t (List.mem_append_right before ht), infosOf, infosOf,
        infosOf, List.flatMap_append]
    · rw [hname]
      refine handle_object_type_value_eq ?_ (column_of_infosOf fun t ht =>
        hothers t (List.mem_append_left after ht))
      rw [infosOf, List.flatMap_append, List.flatMap_cons, hterm]
      rfl
  | none =>
    have hname : terms.any (fun t => t.name = "ObjectId") = false := by
      rw [List.any_eq_false]
      exact fun t ht h => hasks t ht (of_decide_eq_true h)
    refine ⟨infosOf table terms, [], fun info => ?_, ?_⟩
    · rw [List.append_nil, List.filter_eq_self.mpr fun t ht => decide_eq_true (hasks t ht)]
    · rw [hname]
      refine handle_object_type_value_eq ?_ (column_of_infosOf hasks)
      have hpopulate : populate "ObjectTypeName1" .LIKE (table ++ [':']) =
          some [⟨"column6", .LIKE, table ++ [':'] ++ ['%']⟩] := populate_object table .LIKE []
      rw [addObjectType, if_neg (by decide), hpopulate]
      simp [objectCondition]

namespace Message

variable (m : Message)

theorem length_objectColumns : m.objectColumns.length = 6 := by
  simp only [objectColumns, storedNames, List.length_append, List.length_map, List.length_take,
    List.length_replicate]
  show min 6 m.object_names.length + (6 - m.object_names.length) = 6
  omega

theorem length_info : m.info.length = 22 := by
  simp only [info, List.length_append, length_objectColumns]
  rfl

/-- The text of an object column. -/
theorem textAt_object {i : Nat} (hi : i < 6) :
    textAt m.info (objectCassColumns.getD i "") = m.storedNames[i]?.map (PrependT2 m.T2) := by
  have hplace : ∀ i < 6, columnNames.idxOf (objectCassColumns.getD i "") = 7 + i := by decide
  have hlen := m.length_objectColumns
  have hget : m.info[7 + i]? = m.objectColumns[i]? := by
    rw [info, List.getElem?_append_right (by simp), List.getElem?_append_left (by simp; omega)]
    congr 1
    simp
  rw [textAt, hplace i hi, hget, objectColumns]
  by_cases hstored : i < m.storedNames.length
  · rw [List.getElem?_append_left (by simpa using hstored), List.getElem?_map,
      List.getElem?_eq_getElem hstored]
    rfl
  · have hnone : m.storedNames[i]? = none := List.getElem?_eq_none (by omega)
    rw [List.getElem?_append_right (by simp; omega), hnone, Option.map_none,
      List.getElem?_replicate]
    by_cases hblank : i - (m.storedNames.map fun object_name =>
        DbDataValue.text (PrependT2 m.T2 object_name)).length <
          MSG_TABLE_MAX_OBJECTS_PER_MSG - m.object_names.length
    · rw [if_pos hblank]
    · rw [if_neg hblank]

end Message

/-- A name meets the condition. -/
def NameFound (table : Text) (asked : Option Text) (name : Text) : Prop :=
  match asked with
  | some X => name = table ++ ':' :: X
  | none => table ++ [':'] <+: name

/-- What a query finds. -/
structure Found (q : ObjectQuery) (asked : Option Text) (m : Message) : Prop where
  read : rowTime q.from_time ≤ m.T2 ∧ m.T2 ≤ rowTime q.end_time ∧ m.partition_no ≤ PARTITION_MAX
  in_range : q.from_time ≤ m.resultTime ∧ m.resultTime ≤ q.end_time
  others : ∀ t ∈ q.terms, t.name ≠ "ObjectId" → ∃ infos, termInfo q.table.toList t = some infos ∧
    ∀ info ∈ infos, (TagPredicate.index info).holds m.T2 (textAt m.info) = true
  object : ∃ name ∈ m.storedNames, NameFound q.table.toList asked name

theorem prependT2_inj {T2 : Nat} {a b : Text} : PrependT2 T2 a = PrependT2 T2 b ↔ a = b := by
  simp [PrependT2]

/-- The condition on a column with an object name. -/
theorem holds_objectCondition {table : Text} (hpercent : '%' ∉ table) (T2 : Nat)
    (asked : Option Text) (column : String) (row : String → Option Text) :
    (TagPredicate.index ⟨column, (objectCondition table asked).1,
      (objectCondition table asked).2⟩).holds T2 row = true ↔
      ∃ name, row column = some (PrependT2 T2 name) ∧ NameFound table asked name := by
  have hhead : ∀ text : Text, text.head? ≠ some '%' → PipelineCb T2 text = PrependT2 T2 text :=
    fun text h => if_neg h
  have htable : ∀ text : Text, (table ++ ':' :: text).head? ≠ some '%' := by
    intro text h
    cases table with
    | nil => exact absurd h (by simp)
    | cons c table =>
      rw [List.cons_append, List.head?_cons, Option.some.injEq] at h
      exact hpercent (h ▸ List.mem_cons_self)
  cases hrow : row column with
  | none => simp [TagPredicate.holds, hrow]
  | some text =>
    cases asked with
    | some X =>
      simp only [TagPredicate.holds, hrow, Option.some.injEq]
      refine decide_eq_true_iff.trans ?_
      show text = PipelineCb T2 (table ++ ':' :: X) ↔ _
      rw [hhead _ (htable X)]
      constructor
      · intro heq
        exact ⟨_, heq, rfl⟩
      · rintro ⟨name, heq, rfl⟩
        exact heq
    | none =>
      have hpattern : PipelineCb T2 (table ++ [':', '%']) =
          PrependT2 T2 (table ++ [':']) ++ ['%'] := by
        rw [hhead _ (htable ['%'])]
        simp [PrependT2]
      have hplain : '%' ∉ PrependT2 T2 (table ++ [':']) := by
        have hdigits : '%' ∉ Nat.toDigits 10 T2 := not_mem_digits (by decide) T2
        simp [PrependT2, hdigits, hpercent]
      simp only [TagPredicate.holds, hrow, objectCondition, Option.some.injEq]
      rw [hpattern, like_append_percent_iff_prefix hplain]
      constructor
      · rintro ⟨rest, rfl⟩
        exact ⟨table ++ [':'] ++ rest, by simp [PrependT2], rest, rfl⟩
      · rintro ⟨name, rfl, rest, rfl⟩
        exact ⟨rest, by simp [PrependT2]⟩

/-- Some object column meets the condition if and only if a stored name does. -/
theorem exists_objectColumn_iff {table : Text} (hpercent : '%' ∉ table) (asked : Option Text)
    (m : Message) :
    (∃ column ∈ objectCassColumns, (TagPredicate.index ⟨column, (objectCondition table asked).1,
      (objectCondition table asked).2⟩).holds m.T2 (textAt m.info) = true) ↔
      ∃ name ∈ m.storedNames, NameFound table asked name := by
  constructor
  · rintro ⟨column, hcolumn, hholds⟩
    obtain ⟨name, htext, hname⟩ := (holds_objectCondition hpercent _ _ _ _).mp hholds
    obtain ⟨i, hi, rfl⟩ := List.getElem_of_mem hcolumn
    have hobject := m.textAt_object hi
    rw [List.getD_eq_getElem _ _ hi, htext] at hobject
    obtain ⟨name', hname', heq⟩ := Option.map_eq_some_iff.mp hobject.symm
    obtain rfl := prependT2_inj.mp heq
    exact ⟨name', List.mem_of_getElem? hname', hname⟩
  · rintro ⟨name, hmem, hname⟩
    obtain ⟨i, hi, rfl⟩ := List.getElem_of_mem hmem
    have hsix : i < 6 := by
      have : m.storedNames.length ≤ 6 := List.length_take_le _ _
      omega
    have hobject := m.textAt_object hsix
    rw [List.getElem?_eq_getElem hi] at hobject
    refine ⟨objectCassColumns.getD i "", ?_,
      (holds_objectCondition hpercent _ _ _ _).mpr ⟨_, hobject, hname⟩⟩
    rw [List.getD_eq_getElem _ _ hsix]
    exact List.getElem_mem _

theorem mem_sortUnits {l : List (QueryResultUnit DbDataValue)}
    {unit : QueryResultUnit DbDataValue} : unit ∈ sortUnits l ↔ unit ∈ l := by
  induction l with
  | nil => exact Iff.rfl
  | cons x l ih =>
    have hperm := insertSorted_perm x (sortUnits l)
    exact hperm.mem_iff.trans (by rw [List.mem_cons, List.mem_cons, ih])

theorem mem_queryResult {messages : List Message} {from_time end_time : Nat}
    {where_vec : List WhereIndexInfo} {unit : QueryResultUnit DbDataValue} :
    unit ∈ queryResult messages from_time end_time where_vec ↔ ∃ m ∈ messages,
      (rowTime from_time ≤ m.T2 ∧ m.T2 ≤ rowTime end_time ∧ m.partition_no ≤ PARTITION_MAX) ∧
      (from_time ≤ m.resultTime ∧ m.resultTime ≤ end_time) ∧
      (∀ info ∈ where_vec, (TagPredicate.index info).holds m.T2 (textAt m.info) = true) ∧
      unit = ⟨m.resultTime, m.info⟩ := by
  rw [queryResult, mem_sortUnits, List.mem_map]
  constructor
  · rintro ⟨m, hm, rfl⟩
    obtain ⟨hmem, hall⟩ := List.mem_filter.mp hm
    obtain ⟨hread, hholds, hrange⟩ := of_decide_eq_true hall
    exact ⟨m, hmem, hread, hrange, List.all_eq_true.mp hholds, rfl⟩
  · rintro ⟨m, hmem, hread, hrange, hholds, rfl⟩
    exact ⟨m, List.mem_filter.mpr
      ⟨hmem, decide_eq_true ⟨hread, List.all_eq_true.mpr hholds, hrange⟩⟩, rfl⟩

/-- The six answers united. -/
theorem mem_op_or_queryResult {messages : List Message} {from_time end_time : Nat}
    {vecs : List (List WhereIndexInfo)} (hne : vecs ≠ []) :
    ∃ units, op_or (vecs.map (queryResult messages from_time end_time)) = some units ∧
      ∀ unit, unit ∈ units ↔ ∃ vec ∈ vecs, unit ∈ queryResult messages from_time end_time vec := by
  have hsorted : ∀ l ∈ vecs.map (queryResult messages from_time end_time), SortedUnits 22 l := by
    intro l hl
    obtain ⟨vec, -, rfl⟩ := List.mem_map.mp hl
    refine sortUnits_sorted fun unit hunit => ?_
    obtain ⟨m, -, rfl⟩ := List.mem_map.mp hunit
    exact m.length_info
  obtain ⟨units, hunits, hunion⟩ := op_or_isMaxUnion (by simpa using hne) hsorted
  refine ⟨units, hunits, fun unit => ?_⟩
  rw [hunion.mem_iff]
  constructor
  · rintro ⟨l, hl, hmem⟩
    obtain ⟨vec, hvec, rfl⟩ := List.mem_map.mp hl
    exact ⟨vec, hvec, hmem⟩
  · rintro ⟨vec, hvec, hmem⟩
    exact ⟨_, List.mem_map_of_mem hvec, hmem⟩

theorem valid_of_whereVecs {table : Text} {terms : List ObjectTerm}
    {vecs : List (List WhereIndexInfo)} (h : whereVecs table terms = some vecs) :
    ∀ t ∈ terms, (termInfo table t).isSome := by
  obtain ⟨infos, hinfos, -⟩ := Option.bind_eq_some_iff.mp h
  exact (mapM_termInfo hinfos).2

/-- The conditions of the terms that are not on `ObjectId`. -/
theorem infosOf_hold_iff {table : Text} {terms : List ObjectTerm}
    (hvalid : ∀ t ∈ terms, t.name ≠ "ObjectId" → (termInfo table t).isSome)
    (P : WhereIndexInfo → Prop) :
    (∀ info ∈ infosOf table (terms.filter (·.name ≠ "ObjectId")), P info) ↔
      ∀ t ∈ terms, t.name ≠ "ObjectId" → ∃ infos, termInfo table t = some infos ∧
        ∀ info ∈ infos, P info := by
  constructor
  · intro hall t ht hname
    obtain ⟨infos, hinfos⟩ := Option.isSome_iff_exists.mp (hvalid t ht hname)
    refine ⟨infos, hinfos, fun info hinfo => hall info (List.mem_flatMap.mpr ⟨t, ?_, ?_⟩)⟩
    · exact List.mem_filter.mpr ⟨ht, decide_eq_true hname⟩
    · rw [hinfos]
      exact hinfo
  · intro hall info hinfo
    obtain ⟨t, ht, hmem⟩ := List.mem_flatMap.mp hinfo
    obtain ⟨ht, hname⟩ := List.mem_filter.mp ht
    obtain ⟨infos, hinfos, hholds⟩ := hall t ht (of_decide_eq_true hname)
    rw [hinfos] at hmem
    exact hholds info hmem

/-- The rows that a query finds. -/
theorem mem_whereResult_iff {q : ObjectQuery} {asked : Option Text}
    (htable : q.table ∈ objectTables) (hasks : Asks q.terms asked) (messages : List Message) (unit : QueryResultUnit DbDataValue) :
    (∃ units, whereResult messages q.from_time q.end_time q.table.toList q.terms = some units ∧
      unit ∈ units) ↔ ∃ m ∈ messages, Found q asked m ∧ unit = ⟨m.resultTime, m.info⟩ := by
  have hpercent := (objectTables_plain q.table htable).2
  -- the condition on the object can be read
  have hobject : ∀ t ∈ q.terms, t.name = "ObjectId" → (termInfo q.table.toList t).isSome := by
    intro t ht hname
    cases asked with
    | none => exact absurd hname (hasks t ht)
    | some X =>
      obtain ⟨before, after, heq, hothers⟩ := hasks
      rw [heq] at ht
      have ht : t = ⟨"ObjectId", .EQUAL, X⟩ ∨ t ∈ before ++ after := by
        simp only [List.mem_append, List.mem_cons] at ht ⊢
        tauto
      rcases ht with rfl | ht
      · exact Option.isSome_iff_exists.mpr ⟨_, populate_object q.table.toList .EQ X⟩
      · exact absurd hname (hothers t ht)
  constructor
  · rintro ⟨units, hunits, hmem⟩
    obtain ⟨vecs, hvecs, hor⟩ := Option.bind_eq_some_iff.mp hunits
    have hvalid := valid_of_whereVecs hvecs
    -- one conjunction for each column an object may be in, all with the other conditions
    obtain ⟨before, after, hothers, heq⟩ := whereVecs_eq hasks hvalid
    obtain rfl := Option.some.inj (hvecs.symm.trans heq)
    have hne : (objectCassColumns.map fun column => before ++ ⟨column,
        (objectCondition q.table.toList asked).1, (objectCondition q.table.toList asked).2⟩ ::
          after) ≠ [] := by simp [objectCassColumns]
    obtain ⟨units', hunits', hunion⟩ :=
      @mem_op_or_queryResult messages q.from_time q.end_time _ hne
    obtain rfl := Option.some.inj (hor.symm.trans hunits')
    obtain ⟨vec, hvec, hin⟩ := (hunion unit).mp hmem
    obtain ⟨column, hcolumn, rfl⟩ := List.mem_map.mp hvec
    obtain ⟨m, hm, hread, hrange, hholds, rfl⟩ := mem_queryResult.mp hin
    refine ⟨m, hm, ⟨hread, hrange, ?_, ?_⟩, rfl⟩
    · refine (infosOf_hold_iff (fun t ht _ => hvalid t ht) _).mp fun info hinfo => hholds info ?_
      have := (hothers info).mpr hinfo
      simp only [List.mem_append, List.mem_cons] at this ⊢
      tauto
    · exact (exists_objectColumn_iff hpercent asked m).mp
        ⟨column, hcolumn, hholds _ (by simp)⟩
  · rintro ⟨m, hm, hfound, rfl⟩
    -- conversely, a message that is found says that the other conditions can be read
    have hvalid : ∀ t ∈ q.terms, (termInfo q.table.toList t).isSome := by
      intro t ht
      by_cases hname : t.name = "ObjectId"
      · exact hobject t ht hname
      · obtain ⟨infos, hinfos, -⟩ := hfound.others t ht hname
        exact Option.isSome_iff_exists.mpr ⟨infos, hinfos⟩
    obtain ⟨before, after, hothers, heq⟩ := whereVecs_eq hasks hvalid
    have hne : (objectCassColumns.map fun column => before ++ ⟨column,
        (objectCondition q.table.toList asked).1, (objectCondition q.table.toList asked).2⟩ ::
          after) ≠ [] := by simp [objectCassColumns]
    obtain ⟨units, hunits, hunion⟩ :=
      @mem_op_or_queryResult messages q.from_time q.end_time _ hne
    refine ⟨units, by rw [whereResult, heq]; exact hunits, (hunion _).mpr ?_⟩
    -- its object is in one of the columns
    obtain ⟨column, hcolumn, hholds⟩ :=
      (exists_objectColumn_iff hpercent asked m).mpr hfound.object
    refine ⟨_, List.mem_map_of_mem hcolumn,
      mem_queryResult.mpr ⟨m, hm, hfound.read, hfound.in_range, fun info hinfo => ?_, rfl⟩⟩
    have hall := (infosOf_hold_iff (fun t ht _ => hvalid t ht) _).mpr hfound.others
    rw [List.mem_append, List.mem_cons] at hinfo
    rcases hinfo with hinfo | rfl | hinfo
    · exact hall info ((hothers info).mp (List.mem_append_left after hinfo))
    · exact hholds
    · exact hall info ((hothers info).mp (List.mem_append_right before hinfo))

end TfAnalytics.QueryEngine.ObjectLog
