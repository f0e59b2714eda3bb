import TfAnalytics.Lib.Overwrite
import TfAnalytics.QueryEngine.Window

/-!
# Collector — the records of a session message

A session message has fields that all its records share and a map with one entry for
each endpoint (`ip_port_proto`). `SessionSampleAdd` (db_handler.cc) writes one record
for each endpoint. It keeps the values in one array that it fills from the message
first, then from one entry after the other, and never clears. What an entry leaves out
is then recorded with the value of an entry before.

* `fillEntry_eq` — an entry is a sequence of writes to the array;
* `session_record_independent_iff` — when a record does not show the other entries.
-/

namespace TfAnalytics.Collector

open TfAnalytics.Lib
open TfAnalytics.QueryEngine (RowTimeInBits RowTimeInMask)

-- ---------------------------------------------------------------------------
-- Messages
-- ---------------------------------------------------------------------------

/-- `pugi::xml_node`: name, attributes, text and child elements. -/
inductive XmlNode where
  | mk (name : String) (attributes : List (String × String)) (child_value : String)
      (children : List XmlNode)

namespace XmlNode

/-- The node that stands for no node. -/
def null : XmlNode := .mk "" [] "" []

def name : XmlNode → String
  | .mk name _ _ _ => name

def child_value : XmlNode → String
  | .mk _ _ child_value _ => child_value

def children : XmlNode → List XmlNode
  | .mk _ _ _ children => children

def «attribute» (node : XmlNode) (key : String) : String :=
  match node with
  | .mk _ attributes _ _ => (attributes.lookup key).getD ""

def child (node : XmlNode) (key : String) : XmlNode :=
  (node.children.find? fun c => c.name = key).getD null

/-- The same element with other children. -/
def withChildren (node : XmlNode) (children : List XmlNode) : XmlNode :=
  match node with
  | .mk name attributes child_value _ => .mk name attributes child_value children

end XmlNode

/-- The keys of a map and their values stand one after the other. -/
def keyedPairs : List XmlNode → List (XmlNode × XmlNode)
  | [] => []
  | [k] => [(k, .null)]
  | k :: v :: rest => (k, v) :: keyedPairs rest

-- ---------------------------------------------------------------------------
-- Columns
-- ---------------------------------------------------------------------------

inductive SessionRecordFields where
  | SESSION_T2 | SESSION_PARTITION_NO | SESSION_IS_SI | SESSION_IS_CLIENT_SESSION
  | SESSION_PROTOCOL | SESSION_SPORT | SESSION_T1 | SESSION_UUID
  | SESSION_DEPLOYMENT | SESSION_TIER | SESSION_APPLICATION | SESSION_SITE
  | SESSION_LABELS | SESSION_CUSTOM_TAGS
  | SESSION_REMOTE_DEPLOYMENT | SESSION_REMOTE_TIER | SESSION_REMOTE_APPLICATION
  | SESSION_REMOTE_SITE | SESSION_REMOTE_LABELS | SESSION_REMOTE_CUSTOM_TAGS
  | SESSION_REMOTE_PREFIX | SESSION_SECURITY_POLICY_RULE | SESSION_VMI | SESSION_IP
  | SESSION_VN | SESSION_REMOTE_VN | SESSION_VROUTER | SESSION_VROUTER_IP
  | SESSION_SAMPLED_FORWARD_BYTES | SESSION_SAMPLED_FORWARD_PKTS
  | SESSION_SAMPLED_REVERSE_BYTES | SESSION_SAMPLED_REVERSE_PKTS
  | SESSION_LOGGED_FORWARD_BYTES | SESSION_LOGGED_FORWARD_PKTS
  | SESSION_LOGGED_REVERSE_BYTES | SESSION_LOGGED_REVERSE_PKTS
  | SESSION_MAP
  deriving DecidableEq

/-- The types of `GenDb::DbDataType` that session fields have. -/
inductive SessionDataType where
  | Unsigned8Type | Unsigned16Type | Unsigned64Type | AsciiType | UTF8Type | InetType

open SessionRecordFields SessionDataType in
/-- `session_msg2type_map` (vizd_table_desc.cc), with the names of `SessionRecordNames`. -/
def session_msg2type_map : List (String × SessionRecordFields × SessionDataType) :=
  [("is_client_session", SESSION_IS_CLIENT_SESSION, Unsigned8Type),
   ("is_si", SESSION_IS_SI, Unsigned8Type),
   ("protocol", SESSION_PROTOCOL, Unsigned16Type),
   ("server_port", SESSION_SPORT, Unsigned16Type),
   ("deployment", SESSION_DEPLOYMENT, UTF8Type),
   ("tier", SESSION_TIER, UTF8Type),
   ("application", SESSION_APPLICATION, UTF8Type),
   ("site", SESSION_SITE, UTF8Type),
   ("labels", SESSION_LABELS, UTF8Type),
   ("custom_tags", SESSION_CUSTOM_TAGS, UTF8Type),
   ("remote_deployment", SESSION_REMOTE_DEPLOYMENT, UTF8Type),
   ("remote_tier", SESSION_REMOTE_TIER, UTF8Type),
   ("remote_application", SESSION_REMOTE_APPLICATION, UTF8Type),
   ("remote_site", SESSION_REMOTE_SITE, UTF8Type),
   ("remote_labels", SESSION_REMOTE_LABELS, UTF8Type),
   ("remote_custom_tags", SESSION_REMOTE_CUSTOM_TAGS, UTF8Type),
   ("security_policy_rule", SESSION_SECURITY_POLICY_RULE, UTF8Type),
   ("remote_prefix", SESSION_REMOTE_PREFIX, UTF8Type),
   ("vmi", SESSION_VMI, AsciiType),
   ("local_ip", SESSION_IP, AsciiType),
   ("vrouter_ip", SESSION_VROUTER_IP, InetType),
   ("vn", SESSION_VN, UTF8Type),
   ("remote_vn", SESSION_REMOTE_VN, UTF8Type),
   ("sampled_forward_bytes", SESSION_SAMPLED_FORWARD_BYTES, Unsigned64Type),
   ("sampled_forward_pkts", SESSION_SAMPLED_FORWARD_PKTS, Unsigned64Type),
   ("sampled_reverse_bytes", SESSION_SAMPLED_REVERSE_BYTES, Unsigned64Type),
   ("sampled_reverse_pkts", SESSION_SAMPLED_REVERSE_PKTS, Unsigned64Type),
   ("logged_forward_bytes", SESSION_LOGGED_FORWARD_BYTES, Unsigned64Type),
   ("logged_forward_pkts", SESSION_LOGGED_FORWARD_PKTS, Unsigned64Type),
   ("logged_reverse_bytes", SESSION_LOGGED_REVERSE_BYTES, Unsigned64Type),
   ("logged_reverse_pkts", SESSION_LOGGED_REVERSE_PKTS, Unsigned64Type)]

/-- `GenDb::DbDataValue`. -/
inductive DbDataValue (U I : Type) where
  | blank
  | uint8 (n : Nat)
  | uint16 (n : Nat)
  | uint32 (n : Nat)
  | uint64 (n : Nat)
  | string (s : String)
  | uuid (u : U)
  | inet (ip : I)
  deriving DecidableEq

abbrev SessionValueArray (U I : Type) := SessionRecordFields → DbDataValue U I

inductive SessionJson where
  | num (n : Nat)
  | str (s : String)
  | obj (members : List (String × SessionJson))

/-- Code that is elsewhere: the conversions, the writer of rapidjson and
`g_flow_constants`. `stringToInteger` is what is left in an integer of that many bits, and
whether the text was a number. -/
structure SessionLibrary (U I : Type) where
  stringToInteger : Nat → String → Nat × Bool
  unescapeXMLControlChars : String → String
  from_string : String → I
  nil_uuid : U
  ipAddress : I
  write : SessionJson → String
  SessionFlowInfoField2Type : String → Option Bool
  PORT : String
  IP : String
  SERVICE_PORT : String
  PROTOCOL : String
  LOCAL_IP : String

section

variable {U I : Type} (lib : SessionLibrary U I)

open SessionRecordFields

def UNKNOWN : String := "__UNKNOWN__"

def default_col_values : SessionRecordFields → DbDataValue U I
  | SESSION_T2 | SESSION_T1 => .uint32 0
  | SESSION_PARTITION_NO | SESSION_IS_SI | SESSION_IS_CLIENT_SESSION => .uint8 0
  | SESSION_PROTOCOL | SESSION_SPORT => .uint16 0
  | SESSION_UUID => .uuid lib.nil_uuid
  | SESSION_VROUTER | SESSION_MAP => .string ""
  | SESSION_VROUTER_IP => .inet lib.ipAddress
  | SESSION_SAMPLED_FORWARD_BYTES | SESSION_SAMPLED_FORWARD_PKTS
  | SESSION_SAMPLED_REVERSE_BYTES | SESSION_SAMPLED_REVERSE_PKTS
  | SESSION_LOGGED_FORWARD_BYTES | SESSION_LOGGED_FORWARD_PKTS
  | SESSION_LOGGED_REVERSE_BYTES | SESSION_LOGGED_REVERSE_PKTS => .uint64 0
  | _ => .string UNKNOWN

/-- From `SESSION_INDEX_MIN` to `SESSION_INDEX_MAX`. -/
def indexFields : List SessionRecordFields :=
  [SESSION_DEPLOYMENT, SESSION_TIER, SESSION_APPLICATION, SESSION_SITE, SESSION_LABELS,
   SESSION_CUSTOM_TAGS, SESSION_REMOTE_DEPLOYMENT, SESSION_REMOTE_TIER,
   SESSION_REMOTE_APPLICATION, SESSION_REMOTE_SITE, SESSION_REMOTE_LABELS,
   SESSION_REMOTE_CUSTOM_TAGS, SESSION_REMOTE_PREFIX, SESSION_SECURITY_POLICY_RULE, SESSION_VMI,
   SESSION_IP, SESSION_VN, SESSION_REMOTE_VN]

/-- From `SESSION_MIN` up to the one before `SESSION_MAP`. -/
def nameFields : List SessionRecordFields :=
  [SESSION_PROTOCOL, SESSION_SPORT, SESSION_T1, SESSION_UUID] ++ indexFields ++
  [SESSION_VROUTER, SESSION_VROUTER_IP, SESSION_SAMPLED_FORWARD_BYTES,
   SESSION_SAMPLED_FORWARD_PKTS, SESSION_SAMPLED_REVERSE_BYTES, SESSION_SAMPLED_REVERSE_PKTS,
   SESSION_LOGGED_FORWARD_BYTES, SESSION_LOGGED_FORWARD_PKTS, SESSION_LOGGED_REVERSE_BYTES,
   SESSION_LOGGED_REVERSE_PKTS]

-- ---------------------------------------------------------------------------
-- PopulateSessionTable
-- ---------------------------------------------------------------------------

/-- What is passed to `db_insert_cb`. -/
structure SessionRecord (U I : Type) where
  rowkey : List (DbDataValue U I)
  cnames : List (DbDataValue U I)
  cvalue : List (DbDataValue U I)
  ttl : Nat
  deriving DecidableEq

/-- A blank value is written as its default. -/
def columnName (t2 : Nat) (sfield : SessionRecordFields) : DbDataValue U I → DbDataValue U I
  | .blank =>
    if sfield ∈ indexFields then .string (toString t2 ++ ":" ++ UNKNOWN)
    else default_col_values lib sfield
  | value => value

def PopulateSessionTable (t2 : Nat) (svalues : SessionValueArray U I) (ttl : Nat) :
    SessionRecord U I where
  rowkey := [svalues SESSION_T2, svalues SESSION_PARTITION_NO, svalues SESSION_IS_SI,
    svalues SESSION_IS_CLIENT_SESSION]
  cnames := nameFields.map fun sfield => columnName lib t2 sfield (svalues sfield)
  cvalue := [svalues SESSION_MAP]
  ttl := ttl

-- ---------------------------------------------------------------------------
-- The fields of the message
-- ---------------------------------------------------------------------------

/-- The fields whose text is recorded behind the row number. -/
def prefixedFields : List SessionRecordFields :=
  [SESSION_DEPLOYMENT, SESSION_TIER, SESSION_APPLICATION, SESSION_SITE, SESSION_REMOTE_DEPLOYMENT,
   SESSION_REMOTE_TIER, SESSION_REMOTE_APPLICATION, SESSION_REMOTE_SITE, SESSION_REMOTE_PREFIX,
   SESSION_SECURITY_POLICY_RULE, SESSION_VMI, SESSION_VN, SESSION_REMOTE_VN]

def setText (T2 : Nat) (sfield : XmlNode) : String :=
  toString T2 ++ ":" ++ ";".intercalate
    ((sfield.child "set").children.map fun set_elem =>
      lib.unescapeXMLControlChars set_elem.child_value)

def fieldValue (T2 : Nat) (field : SessionRecordFields) (type : SessionDataType) (text : String) :
    DbDataValue U I :=
  match type with
  | .Unsigned8Type => .uint8 (lib.stringToInteger 8 text).1
  | .Unsigned16Type => .uint16 (lib.stringToInteger 16 text).1
  | .Unsigned64Type => .uint64 (lib.stringToInteger 64 text).1
  | .AsciiType | .UTF8Type =>
    let val := lib.unescapeXMLControlChars text
    if field ∈ prefixedFields then .string (toString T2 ++ ":" ++ val) else .string val
  | .InetType => .inet (lib.from_string text)

/-- One field of the message: the array, and the map of the endpoints if it is there. -/
def addField (T2 : Nat) (acc : SessionValueArray U I × XmlNode) (sfield : XmlNode) :
    SessionValueArray U I × XmlNode :=
  match session_msg2type_map.lookup sfield.name with
  | some (field, type) =>
    if sfield.attribute "type" = "set" then
      (Function.update acc.1 field (.string (setText lib T2 sfield)), acc.2)
    else (Function.update acc.1 field (fieldValue lib T2 field type sfield.child_value), acc.2)
  | none =>
    if sfield.attribute "type" = "map" ∧ sfield.name = "sess_agg_info" then
      (acc.1, sfield.child "map")
    else acc

def initialValues (T2 T1 : Nat) (source : String) : SessionValueArray U I :=
  Function.update (Function.update (Function.update (fun _ => .blank) SESSION_T2 (.uint32 T2))
    SESSION_T1 (.uint32 T1)) SESSION_VROUTER (.string source)

-- ---------------------------------------------------------------------------
-- The entry of an endpoint
-- ---------------------------------------------------------------------------

/-- `none` is the failed assertion that the field is known. -/
def flowInfo (field : XmlNode) : Option SessionJson :=
  ((field.child "SessionFlowInfo").children.mapM fun finfo =>
    (lib.SessionFlowInfoField2Type finfo.name).map fun isNumber =>
      if isNumber then (finfo.name, .num (lib.stringToInteger 64 finfo.child_value).1)
      else (finfo.name, .str finfo.child_value)).map .obj

def sessionField (field : XmlNode) : Option (String × SessionJson) :=
  if field.name = "forward_flow_info" ∨ field.name = "reverse_flow_info" then
    (flowInfo lib field).map fun flow_info => (field.name, flow_info)
  else
    match lib.stringToInteger 64 field.child_value with
    | (val, true) => some (field.name, .num val)
    | (_, false) => some (field.name, .str field.child_value)

def sessionEntry (entry : XmlNode × XmlNode) : Option (String × SessionJson) :=
  (entry.2.children.mapM (sessionField lib)).map fun members =>
    ((entry.1.child lib.PORT).child_value ++ ":" ++ (entry.1.child lib.IP).child_value,
      .obj members)

def JsonifySessionMap (root : XmlNode) : Option String :=
  ((keyedPairs root.children).mapM (sessionEntry lib)).map fun members => lib.write (.obj members)

/-- One field of an entry. -/
def addAggInfo (values : SessionValueArray U I) (agg_info : XmlNode) :
    Option (SessionValueArray U I) :=
  if agg_info.attribute "type" = "map" then
    (JsonifySessionMap lib (agg_info.child "map")).map fun session_map =>
      Function.update values SESSION_MAP (.string session_map)
  else
    match session_msg2type_map.lookup agg_info.name with
    | some (field, _) => some (Function.update values field
        (.uint64 (lib.stringToInteger 64 agg_info.child_value).1))
    | none => some values

/-- The array with the key and the entry of one endpoint; `gen` is the uuid and the
partition that are drawn for the record. -/
def fillEntry (T2 : Nat) (values : SessionValueArray U I) (endpoint : XmlNode × XmlNode)
    (gen : U × Nat) : Option (SessionValueArray U I) :=
  let ip_port_proto := endpoint.1
  let values := Function.update values SESSION_SPORT
    (.uint16 (lib.stringToInteger 16 (ip_port_proto.child lib.SERVICE_PORT).child_value).1)
  let values := Function.update values SESSION_PROTOCOL
    (.uint16 (lib.stringToInteger 16 (ip_port_proto.child lib.PROTOCOL).child_value).1)
  let values := Function.update values SESSION_UUID (.uuid gen.1)
  let values := Function.update values SESSION_PARTITION_NO (.uint8 gen.2)
  let values := Function.update values SESSION_IP
    (.string (toString T2 ++ ":" ++ (ip_port_proto.child lib.LOCAL_IP).child_value))
  endpoint.2.children.foldlM (addAggInfo lib) values

/-- The records that are written; a failed assertion ends the process. -/
def sessionLoop (T2 ttl : Nat) (gen : Nat → U × Nat) :
    Nat → SessionValueArray U I → List (XmlNode × XmlNode) → List (SessionRecord U I)
  | _, _, [] => []
  | i, values, endpoint :: rest =>
    match fillEntry lib T2 values endpoint (gen i) with
    | none => []
    | some values =>
      PopulateSessionTable lib T2 values ttl :: sessionLoop T2 ttl gen (i + 1) values rest

-- ---------------------------------------------------------------------------
-- SessionSampleAdd
-- ---------------------------------------------------------------------------

/-- What is used of the header. -/
structure SessionHeader where
  Timestamp : Nat
  Source : String

def SessionHeader.T2 (header : SessionHeader) : Nat := (header.Timestamp >>> RowTimeInBits) % 2 ^ 32

def SessionHeader.T1 (header : SessionHeader) : Nat := header.Timestamp &&& RowTimeInMask

def sampleFields (header : SessionHeader) (session_sample : XmlNode) :
    SessionValueArray U I × XmlNode :=
  session_sample.children.foldl (addField lib header.T2)
    (initialValues header.T2 header.T1 header.Source, .null)

/-- The endpoints of a message, with their entries. -/
def endpoints (header : SessionHeader) (session_sample : XmlNode) : List (XmlNode × XmlNode) :=
  keyedPairs (sampleFields lib header session_sample).2.children

def SessionSampleAdd (session_sample : XmlNode) (header : SessionHeader) (ttl : Nat)
    (gen : Nat → U × Nat) : List (SessionRecord U I) :=
  sessionLoop lib header.T2 ttl gen 0 (sampleFields lib header session_sample).1
    (endpoints lib header session_sample)

-- ---------------------------------------------------------------------------
-- An entry is a sequence of writes
-- ---------------------------------------------------------------------------

abbrev SessionWrites (U I : Type) := List (SessionRecordFields × DbDataValue U I)

/-- What is written for one field of an entry. -/
def aggWrite (agg_info : XmlNode) : Option (SessionWrites U I) :=
  if agg_info.attribute "type" = "map" then
    (JsonifySessionMap lib (agg_info.child "map")).map fun session_map =>
      [(SESSION_MAP, .string session_map)]
  else
    match session_msg2type_map.lookup agg_info.name with
    | some (field, _) => some [(field, .uint64 (lib.stringToInteger 64 agg_info.child_value).1)]
    | none => some []

def aggWrites : List XmlNode → Option (SessionWrites U I)
  | [] => some []
  | agg_info :: rest => do
    let writes ← aggWrite lib agg_info
    let more ← aggWrites rest
    return writes ++ more

def keyWrites (T2 : Nat) (ip_port_proto : XmlNode) (gen : U × Nat) : SessionWrites U I :=
  [(SESSION_SPORT,
      .uint16 (lib.stringToInteger 16 (ip_port_proto.child lib.SERVICE_PORT).child_value).1),
   (SESSION_PROTOCOL,
      .uint16 (lib.stringToInteger 16 (ip_port_proto.child lib.PROTOCOL).child_value).1),
   (SESSION_UUID, .uuid gen.1),
   (SESSION_PARTITION_NO, .uint8 gen.2),
   (SESSION_IP,
      .string (toString T2 ++ ":" ++ (ip_port_proto.child lib.LOCAL_IP).child_value))]

/-- All that an endpoint writes; `none` if an assertion about its entry fails. -/
def entryWrites (T2 : Nat) (endpoint : XmlNode × XmlNode) (gen : U × Nat) :
    Option (SessionWrites U I) :=
  (aggWrites lib endpoint.2.children).map fun writes => keyWrites lib T2 endpoint.1 gen ++ writes

/-- All that a sequence of endpoints writes. -/
def loopWrites (T2 : Nat) (gen : Nat → U × Nat) :
    Nat → List (XmlNode × XmlNode) → Option (SessionWrites U I)
  | _, [] => some []
  | i, endpoint :: rest => do
    let writes ← entryWrites lib T2 endpoint (gen i)
    let more ← loopWrites T2 gen (i + 1) rest
    return writes ++ more

theorem addAggInfo_eq (values : SessionValueArray U I) (agg_info : XmlNode) :
    addAggInfo lib values agg_info = (aggWrite lib agg_info).map (applyWrites values) := by
  unfold addAggInfo aggWrite
  split
  · rw [Option.map_map]
    rfl
  · split <;> rfl

theorem foldlM_addAggInfo (values : SessionValueArray U I) (fields : List XmlNode) :
    fields.foldlM (addAggInfo lib) values = (aggWrites lib fields).map (applyWrites values) := by
  induction fields generalizing values with
  | nil => rfl
  | cons agg_info rest ih =>
    rw [List.foldlM_cons, addAggInfo_eq, aggWrites]
    cases aggWrite lib agg_info with
    | none => rfl
    | some writes =>
      show rest.foldlM (addAggInfo lib) (applyWrites values writes) = _
      rw [ih]
      cases aggWrites lib rest with
      | none => rfl
      | some more => exact congrArg some (applyWrites_append values writes more).symm

theorem fillEntry_eq (T2 : Nat) (values : SessionValueArray U I) (endpoint : XmlNode × XmlNode)
    (gen : U × Nat) :
    fillEntry lib T2 values endpoint gen =
      (entryWrites lib T2 endpoint gen).map (applyWrites values) := by
  show endpoint.2.children.foldlM (addAggInfo lib)
    (applyWrites values (keyWrites lib T2 endpoint.1 gen)) = _
  rw [foldlM_addAggInfo, entryWrites, Option.map_map]
  refine congrArg (Option.map · _) (funext fun writes => ?_)
  exact (applyWrites_append values _ writes).symm

/-- The record of an endpoint: what is written for it, over what was written before. -/
theorem sessionLoop_getElem? (T2 ttl : Nat) (gen : Nat → U × Nat) (n : Nat)
    (values : SessionValueArray U I) (eps : List (XmlNode × XmlNode)) (i : Nat) :
    (sessionLoop lib T2 ttl gen n values eps)[i]? = do
      let endpoint ← eps[i]?
      let earlier ← loopWrites lib T2 gen n (eps.take i)
      let own ← entryWrites lib T2 endpoint (gen (n + i))
      return PopulateSessionTable lib T2 (applyWrites (applyWrites values earlier) own) ttl := by
  induction eps generalizing n values i with
  | nil => rfl
  | cons endpoint rest ih =>
    rw [sessionLoop, fillEntry_eq]
    cases i with
    | zero =>
      cases hown : entryWrites lib T2 endpoint (gen n) with
      | none => simp [hown, loopWrites]
      | some own => simp [hown, loopWrites, applyWrites]
    | succ i =>
      have hshift : n + (i + 1) = n + 1 + i := by omega
      cases hfirst : entryWrites lib T2 endpoint (gen n) with
      | none =>
        cases hend : rest[i]? <;> simp [hfirst, loopWrites, hend]
      | some first =>
        have hrest := ih (n + 1) (applyWrites values first) i
        simp only [Option.map_some, List.getElem?_cons_succ, hrest, List.take_succ_cons, loopWrites,
          hfirst, hshift]
        cases rest[i]? with
        | none => rfl
        | some endpoint' =>
          cases loopWrites lib T2 gen (n + 1) (rest.take i) with
          | none => rfl
          | some more => simp [applyWrites_append]

-- ---------------------------------------------------------------------------
-- What a record shows
-- ---------------------------------------------------------------------------

/-- The record without its uuid and its partition. -/
def SessionRecord.upToGenerated (r : SessionRecord U I) : SessionRecord U I :=
  { r with rowkey := r.rowkey.set 1 .blank, cnames := r.cnames.set 3 .blank }

/-- How a value is recorded. -/
def shown (T2 : Nat) (field : SessionRecordFields) (value : DbDataValue U I) : DbDataValue U I :=
  if field ∈ nameFields then columnName lib T2 field value else value

/-- The fields in the name of a column, but for the uuid. -/
def plainFields : List SessionRecordFields :=
  [SESSION_PROTOCOL, SESSION_SPORT, SESSION_T1] ++ nameFields.drop 4

theorem mem_nameFields_of_plain {field : SessionRecordFields} (h : field ∈ plainFields) :
    field ∈ nameFields := by
  revert h
  cases field <;> decide

theorem field_cases (field : SessionRecordFields) (huuid : field ≠ SESSION_UUID)
    (hpart : field ≠ SESSION_PARTITION_NO) :
    field ∈ plainFields ∨
      field ∉ nameFields ∧ field ∈ [SESSION_T2, SESSION_IS_SI, SESSION_IS_CLIENT_SESSION, SESSION_MAP] := by
  cases field <;> first | exact absurd rfl huuid | exact absurd rfl hpart | decide

/-- Two records differ in the uuid and the partition only if and only if all other fields
are recorded alike. -/
theorem upToGenerated_eq_iff (T2 ttl : Nat) (a b : SessionValueArray U I) :
    (PopulateSessionTable lib T2 a ttl).upToGenerated =
        (PopulateSessionTable lib T2 b ttl).upToGenerated ↔
      ∀ field, field ≠ SESSION_UUID → field ≠ SESSION_PARTITION_NO →
        shown lib T2 field (a field) = shown lib T2 field (b field) := by
  have hcnames : ∀ values : SessionValueArray U I,
      (PopulateSessionTable lib T2 values ttl).upToGenerated.cnames =
        [SESSION_PROTOCOL, SESSION_SPORT, SESSION_T1].map
          (fun field => columnName lib T2 field (values field)) ++
        .blank :: (nameFields.drop 4).map (fun field => columnName lib T2 field (values field)) :=
    fun values => rfl
  constructor
  · intro h field huuid hpart
    have hrowkey := congrArg SessionRecord.rowkey h
    have hcvalue := congrArg SessionRecord.cvalue h
    have hnames := congrArg SessionRecord.cnames h
    rw [hcnames, hcnames] at hnames
    -- the generated uuid stands between the first three names and the others
    obtain ⟨hhead, htail⟩ := List.append_inj hnames rfl
    have hplain : ∀ field ∈ plainFields,
        columnName lib T2 field (a field) = columnName lib T2 field (b field) := by
      refine List.map_inj_left.mp ?_
      unfold plainFields
      rw [List.map_append, List.map_append, hhead, List.cons.inj htail |>.2]
    -- a field is among the names, or in the row key or the value
    rcases field_cases field huuid hpart with hfield | ⟨hnot, hfield⟩
    · rw [shown, shown, if_pos (mem_nameFields_of_plain hfield)]
      rw [if_pos (mem_nameFields_of_plain hfield)]
      exact hplain field hfield
    · rw [shown, shown, if_neg hnot, if_neg hnot]
      simp only [PopulateSessionTable, SessionRecord.upToGenerated, List.set_cons_succ,
        List.set_cons_zero, List.cons.injEq, and_true, true_and] at hrowkey hcvalue
      simp only [List.mem_cons, List.not_mem_nil, or_false] at hfield
      rcases hfield with rfl | rfl | rfl | rfl
      · exact hrowkey.1
      · exact hrowkey.2.1
      · exact hrowkey.2.2
      · exact hcvalue
  · intro h
    -- conversely the fields outside the names are equal, and the names have equal texts
    have hraw : ∀ field, field ≠ SESSION_UUID → field ≠ SESSION_PARTITION_NO →
        field ∉ nameFields → a field = b field := by
      intro field huuid hpart hnot
      have hsame := h field huuid hpart
      rwa [shown, shown, if_neg hnot, if_neg hnot] at hsame
    have hnamed : ∀ field ∈ plainFields,
        columnName lib T2 field (a field) = columnName lib T2 field (b field) := by
      intro field hfield
      have hne : field ≠ SESSION_UUID ∧ field ≠ SESSION_PARTITION_NO := by
        constructor <;> rintro rfl <;> revert hfield <;> decide
      have hsame := h field hne.1 hne.2
      rwa [shown, shown, if_pos (mem_nameFields_of_plain hfield),
        if_pos (mem_nameFields_of_plain hfield)] at hsame
    have hlists := List.map_inj_left.mpr hnamed
    unfold plainFields at hlists
    rw [List.map_append, List.map_append] at hlists
    obtain ⟨hhead, htail⟩ := List.append_inj hlists rfl
    have hnames : (PopulateSessionTable lib T2 a ttl).upToGenerated.cnames =
        (PopulateSessionTable lib T2 b ttl).upToGenerated.cnames := by
      rw [hcnames, hcnames, hhead, htail]
    have hrowkey : (PopulateSessionTable lib T2 a ttl).upToGenerated.rowkey =
        (PopulateSessionTable lib T2 b ttl).upToGenerated.rowkey := by
      show [a SESSION_T2, .blank, a SESSION_IS_SI, a SESSION_IS_CLIENT_SESSION] =
        [b SESSION_T2, .blank, b SESSION_IS_SI, b SESSION_IS_CLIENT_SESSION]
      rw [hraw SESSION_T2 (by decide) (by decide) (by decide),
        hraw SESSION_IS_SI (by decide) (by decide) (by decide),
        hraw SESSION_IS_CLIENT_SESSION (by decide) (by decide) (by decide)]
    have hcvalue : (PopulateSessionTable lib T2 a ttl).upToGenerated.cvalue =
        (PopulateSessionTable lib T2 b ttl).upToGenerated.cvalue := by
      show [a SESSION_MAP] = [b SESSION_MAP]
      rw [hraw SESSION_MAP (by decide) (by decide) (by decide)]
    -- so the three parts of the record are equal
    unfold SessionRecord.upToGenerated at hnames hrowkey hcvalue ⊢
    rw [SessionRecord.mk.injEq]
    exact ⟨hrowkey, hnames, hcvalue, rfl⟩

-- ---------------------------------------------------------------------------
-- The message with one endpoint
-- ---------------------------------------------------------------------------

end

namespace XmlNode

@[simp] theorem withChildren_name (node : XmlNode) (cs : List XmlNode) :
    (node.withChildren cs).name = node.name := by
  cases node
  rfl

@[simp] theorem withChildren_attribute (node : XmlNode) (cs : List XmlNode) (key : String) :
    (node.withChildren cs).attribute key = node.attribute key := by
  cases node
  rfl

@[simp] theorem withChildren_children (node : XmlNode) (cs : List XmlNode) :
    (node.withChildren cs).children = cs := by
  cases node
  rfl

/-- The map that is a child of the node gets other children. -/
def withMap (node : XmlNode) (cs : List XmlNode) : XmlNode :=
  node.withChildren (node.children.map fun c => if c.name = "map" then c.withChildren cs else c)

def IsAggInfo (sfield : XmlNode) : Prop :=
  sfield.attribute "type" = "map" ∧ sfield.name = "sess_agg_info"

instance (sfield : XmlNode) : Decidable sfield.IsAggInfo := inferInstanceAs (Decidable (_ ∧ _))

/-- The same message with only one endpoint in its map. -/
def onlyEndpoint (session_sample : XmlNode) (endpoint : XmlNode × XmlNode) : XmlNode :=
  session_sample.withChildren (session_sample.children.map fun sfield =>
    if sfield.IsAggInfo then sfield.withMap [endpoint.1, endpoint.2] else sfield)

theorem child_withMap (node : XmlNode) (cs : List XmlNode) :
    ((node.withMap cs).child "map").children = cs ∨ (node.child "map").children = [] := by
  have hpred : ((fun c : XmlNode => decide (c.name = "map")) ∘
      fun c => if c.name = "map" then c.withChildren cs else c) =
      fun c : XmlNode => decide (c.name = "map") := by
    funext c
    by_cases hc : c.name = "map" <;> simp [hc]
  unfold child withMap
  rw [withChildren_children, List.find?_map, hpred]
  cases hfind : node.children.find? fun c => decide (c.name = "map") with
  | none => exact Or.inr rfl
  | some c =>
    have hname : c.name = "map" := by simpa using List.find?_some hfind
    left
    simp [hname]

end XmlNode

section

variable {U I : Type} (lib : SessionLibrary U I)

open SessionRecordFields

theorem addField_agg (T2 : Nat) (acc : SessionValueArray U I × XmlNode) {sfield : XmlNode}
    (h : sfield.IsAggInfo) : addField lib T2 acc sfield = (acc.1, sfield.child "map") := by
  have hlookup : session_msg2type_map.lookup sfield.name = none := by
    rw [h.2]
    decide
  unfold addField
  rw [hlookup]
  exact if_pos h

theorem addField_rest (T2 : Nat) (values : SessionValueArray U I) {sfield : XmlNode} (h : ¬ sfield.IsAggInfo) :
    ∃ values', ∀ node, addField lib T2 (values, node) sfield = (values', node) := by
  unfold addField
  cases session_msg2type_map.lookup sfield.name with
  | some info =>
    obtain ⟨field, type⟩ := info
    by_cases hset : sfield.attribute "type" = "set"
    · exact ⟨Function.update values field (.string (setText lib T2 sfield)),
        fun node => by dsimp only; rw [if_pos hset]⟩
    · exact ⟨Function.update values field (fieldValue lib T2 field type sfield.child_value),
        fun node => by dsimp only; rw [if_neg hset]⟩
  | none => exact ⟨values, fun node => if_neg h⟩

/-- The values of the message are the same, and its map has the one endpoint. -/
theorem foldl_onlyEndpoint (T2 : Nat) (endpoint : XmlNode × XmlNode) (fields : List XmlNode)
    (values : SessionValueArray U I) (node node' : XmlNode)
    (hnode : node'.children = [endpoint.1, endpoint.2] ∨ node.children = []) :
    let whole := fields.foldl (addField lib T2) (values, node)
    let alone := (fields.map fun sfield =>
      if sfield.IsAggInfo then sfield.withMap [endpoint.1, endpoint.2] else sfield).foldl
        (addField lib T2) (values, node')
    alone.1 = whole.1 ∧ (alone.2.children = [endpoint.1, endpoint.2] ∨ whole.2.children = []) := by
  induction fields generalizing values node node' with
  | nil => exact ⟨rfl, hnode⟩
  | cons sfield fields ih =>
    simp only [List.map_cons, List.foldl_cons]
    by_cases hagg : sfield.IsAggInfo
    · have hagg' : (sfield.withMap [endpoint.1, endpoint.2]).IsAggInfo := by
        unfold XmlNode.IsAggInfo at hagg ⊢
        unfold XmlNode.withMap
        simpa using hagg
      rw [if_pos hagg, addField_agg lib T2 _ hagg, addField_agg lib T2 _ hagg']
      exact ih values _ _ (sfield.child_withMap _)
    · obtain ⟨values', hvalues⟩ := addField_rest lib T2 values hagg
      rw [if_neg hagg, hvalues, hvalues]
      exact ih values' node node' hnode

theorem endpoints_onlyEndpoint {header : SessionHeader} {session_sample : XmlNode} {i : Nat}
    {endpoint : XmlNode × XmlNode}
    (h : (endpoints lib header session_sample)[i]? = some endpoint) :
    (sampleFields lib header (session_sample.onlyEndpoint endpoint)).1 =
        (sampleFields lib header session_sample).1 ∧
      endpoints lib header (session_sample.onlyEndpoint endpoint) = [endpoint] := by
  obtain ⟨hvalues, hmap⟩ := foldl_onlyEndpoint lib header.T2 endpoint session_sample.children
    (initialValues header.T2 header.T1 header.Source) .null .null (Or.inr rfl)
  have halone : sampleFields lib header (session_sample.onlyEndpoint endpoint) =
      (session_sample.children.map fun sfield =>
        if sfield.IsAggInfo then sfield.withMap [endpoint.1, endpoint.2] else sfield).foldl
          (addField lib header.T2) (initialValues header.T2 header.T1 header.Source, .null) := by
    unfold sampleFields XmlNode.onlyEndpoint
    rw [XmlNode.withChildren_children]
  refine ⟨?_, ?_⟩
  · rw [halone]
    exact hvalues
  · rcases hmap with hone | hempty
    · unfold endpoints
      rw [halone, hone]
      rfl
    · -- without a map there is no endpoint
      unfold endpoints sampleFields at h
      rw [hempty] at h
      cases h

-- ---------------------------------------------------------------------------
-- Records that do not show their siblings
-- ---------------------------------------------------------------------------

/-- The record of an endpoint is the one that is written when the map has no other
endpoint, up to the uuid and the partition that are drawn for it. -/
def SameRecord (session_sample : XmlNode) (header : SessionHeader) (ttl : Nat)
    (gen gen' : Nat → U × Nat) (i : Nat) (endpoint : XmlNode × XmlNode) : Prop :=
  (SessionSampleAdd lib session_sample header ttl gen)[i]?.map SessionRecord.upToGenerated =
    (SessionSampleAdd lib (session_sample.onlyEndpoint endpoint) header ttl gen')[0]?.map
      SessionRecord.upToGenerated

/-- The entry itself cannot be recorded; or the entries before it can, and of each field it
leaves out their last value is recorded like the value of the message. -/
def SiblingFree (session_sample : XmlNode) (header : SessionHeader) (gen : Nat → U × Nat) (i : Nat)
    (endpoint : XmlNode × XmlNode) : Prop :=
  entryWrites lib header.T2 endpoint (gen i) = none ∨
    ∃ earlier own,
      loopWrites lib header.T2 gen 0 ((endpoints lib header session_sample).take i) = some earlier ∧
      entryWrites lib header.T2 endpoint (gen i) = some own ∧
      ∀ field, field ≠ SESSION_UUID → field ≠ SESSION_PARTITION_NO → lastWrite field own = none →
        ∀ x, lastWrite field earlier = some x →
          shown lib header.T2 field x =
            shown lib header.T2 field ((sampleFields lib header session_sample).1 field)

theorem lastWrite_keyWrites (T2 : Nat) (ip_port_proto : XmlNode) (gen gen' : U × Nat)
    (writes : SessionWrites U I) {field : SessionRecordFields} (huuid : field ≠ SESSION_UUID)
    (hpart : field ≠ SESSION_PARTITION_NO) :
    lastWrite field (keyWrites lib T2 ip_port_proto gen ++ writes) =
      lastWrite field (keyWrites lib T2 ip_port_proto gen' ++ writes) := by
  rw [lastWrite_append, lastWrite_append]
  simp [keyWrites, lastWrite, Ne.symm huuid, Ne.symm hpart]

/-- A record is independent of the other endpoints of its message if and only if no earlier
entry leaves a value behind that it shows. -/
theorem session_record_independent_iff {session_sample : XmlNode} {header : SessionHeader}
    (ttl : Nat) (gen gen' : Nat → U × Nat) {i : Nat} {endpoint : XmlNode × XmlNode}
    (h : (endpoints lib header session_sample)[i]? = some endpoint) :
    SameRecord lib session_sample header ttl gen gen' i endpoint ↔
      SiblingFree lib session_sample header gen i endpoint := by
  obtain ⟨hvalues, hone⟩ := endpoints_onlyEndpoint lib h
  unfold SameRecord SiblingFree SessionSampleAdd
  rw [hone, hvalues, sessionLoop_getElem?, sessionLoop_getElem?, h]
  unfold entryWrites
  cases hagg : aggWrites lib endpoint.2.children with
  | none =>
    refine iff_of_true ?_ (Or.inl rfl)
    cases loopWrites lib header.T2 gen 0 ((endpoints lib header session_sample).take i) <;>
      simp [hagg, loopWrites]
  | some writes =>
    cases hearlier : loopWrites lib header.T2 gen 0 ((endpoints lib header session_sample).take i) with
    | none => simp [hagg, loopWrites]
    | some earlier =>
      simp only [List.getElem?_cons_zero, List.take_zero, loopWrites, hagg, Option.map_some,
        Option.bind_eq_bind, Option.bind_some, Option.pure_def, reduceCtorEq, false_or,
        Option.some.injEq, exists_and_left, exists_eq_left', Nat.zero_add, upToGenerated_eq_iff]
      refine forall_congr' fun field => forall_congr' fun huuid => forall_congr' fun hpart => ?_
      have hempty : applyWrites (sampleFields lib header session_sample).1 [] =
          (sampleFields lib header session_sample).1 := rfl
      have hgen : applyWrites (sampleFields lib header session_sample).1
            (keyWrites lib header.T2 endpoint.1 (gen' 0) ++ writes) field =
          applyWrites (sampleFields lib header session_sample).1
            (keyWrites lib header.T2 endpoint.1 (gen i) ++ writes) field := by
        rw [applyWrites_apply, applyWrites_apply,
          lastWrite_keyWrites lib header.T2 endpoint.1 (gen' 0) (gen i) writes huuid hpart]
      rw [hempty, hgen]
      exact observed_eq_iff (shown lib header.T2 field) _ _ _ field

end

/-- Decimal numbers, plain texts and messages without session maps. -/
def plainLibrary : SessionLibrary Nat String where
  stringToInteger bits text :=
    (Nat.ofDigitChars 10 text.toList 0 % 2 ^ bits, text.toList ≠ [] ∧ text.toList.all Char.isDigit)
  unescapeXMLControlChars text := text
  from_string text := text
  nil_uuid := 0
  ipAddress := "0.0.0.0"
  write _ := "{}"
  SessionFlowInfoField2Type _ := some true
  PORT := "port"
  IP := "ip"
  SERVICE_PORT := "service_port"
  PROTOCOL := "protocol"
  LOCAL_IP := "local_ip"

def endpointKey (service_port : String) : XmlNode :=
  .mk "SessionIpPortProtocol" [] ""
    [.mk "local_ip" [("type", "ipaddr")] "1.0.0.1" [],
     .mk "service_port" [("type", "u16")] service_port [],
     .mk "protocol" [("type", "u16")] "6" []]

def endpointEntry (fields : List (String × String)) : XmlNode :=
  .mk "SessionAggInfo" [] "" (fields.map fun field => .mk field.1 [("type", "i64")] field.2 [])

def sessionMessage (entries : List XmlNode) : XmlNode :=
  .mk "SessionEndpoint" [] ""
    [.mk "vn" [("type", "string")] "vn0" [], .mk "remote_vn" [("type", "string")] "vn50" [],
     .mk "sess_agg_info" [("type", "map")] "" [.mk "map" [("size", "2")] "" entries]]

/-- Two endpoints that report the same counters. -/
theorem session_record_independent_sample :
    SameRecord plainLibrary
        (sessionMessage [endpointKey "443", endpointEntry [("sampled_forward_bytes", "33327")],
          endpointKey "8080", endpointEntry [("sampled_forward_bytes", "53994")]])
        ⟨41943047, "10.0.0.1"⟩ 172800 (fun i => (i, 0)) (fun _ => (9, 1)) 1
        (endpointKey "8080", endpointEntry [("sampled_forward_bytes", "53994")]) ↔
      SiblingFree plainLibrary
        (sessionMessage [endpointKey "443", endpointEntry [("sampled_forward_bytes", "33327")],
          endpointKey "8080", endpointEntry [("sampled_forward_bytes", "53994")]])
        ⟨41943047, "10.0.0.1"⟩ (fun i => (i, 0)) 1
        (endpointKey "8080", endpointEntry [("sampled_forward_bytes", "53994")]) :=
  session_record_independent_iff plainLibrary 172800 _ _ rfl

/-- The second endpoint has no counter, and is recorded with the one of the first. -/
theorem session_record_shows_sibling :
    (endpoints plainLibrary ⟨41943047, "10.0.0.1"⟩
        (sessionMessage [endpointKey "443", endpointEntry [("sampled_forward_bytes", "33327")],
          endpointKey "8080", endpointEntry []]))[1]? =
      some (endpointKey "8080", endpointEntry []) ∧
    ¬ SameRecord plainLibrary
        (sessionMessage [endpointKey "443", endpointEntry [("sampled_forward_bytes", "33327")],
          endpointKey "8080", endpointEntry []])
        ⟨41943047, "10.0.0.1"⟩ 172800 (fun i => (i, 0)) (fun _ => (9, 1)) 1
        (endpointKey "8080", endpointEntry []) := by
  refine ⟨rfl, ?_⟩
  unfold SameRecord
  decide

end TfAnalytics.Collector
