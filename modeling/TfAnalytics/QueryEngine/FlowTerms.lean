import TfAnalytics.QueryEngine.Filters
import TfAnalytics.QueryEngine.StatTags

/-!
# Query engine — OR terms of flow queries

Flows are read from the session table. The constructor of `WhereQuery` turns the
predicates of an OR term into a query of the client sessions and one of the server
sessions, each with a slice of the clustering columns (protocol and server port) and
conditions on index columns (local IP and the two VNs). What has no column there, and
the ports once more, is left over for the filters of `PostProcessingQuery`: the remote
IP, the ports and the vrouter.

Slices are those of CQL: tuples in lexicographic order, of as many columns as the bound
has. The database compares an index column with the text that `PipelineCb` makes of the
value.
-/

namespace TfAnalytics.QueryEngine.FlowWhere

open TfAnalytics.Lib TfAnalytics.Collector

-- ---------------------------------------------------------------------------
-- Terms
-- ---------------------------------------------------------------------------

inductive Direction where
  | EGRESS
  | INGRESS
  deriving DecidableEq

inductive SessionType where
  | SERVER_SESSION
  | CLIENT_SESSION
  deriving DecidableEq

/-- The indexed columns of the flow tables, `direction_ing` apart, which the
constructor does not read. -/
inductive FlowField where
  | vrouter
  | sourcevn
  | destvn
  | sourceip
  | destip
  | protocol
  | sport
  | dport
  deriving DecidableEq

/-- A predicate of an OR term; `value2` is read with IN_RANGE. -/
structure WhereMatch where
  field : FlowField
  op : MatchOp
  value : String
  value2 : String := ""
  deriving DecidableEq

instance uint16_neZero : NeZero (2 ^ 16) := ⟨by decide⟩

/-- `std::istringstream(value) >> n` for a `uint16_t`: a number that does not fit is
read as the largest one. -/
def readUint16 (value : String) : Fin (2 ^ 16) :=
  match value.toList.dropWhile Char.isWhitespace with
  | '-' :: rest =>
    if StatsSelect.digitsValue rest < 2 ^ 16 then
      Fin.ofNat (2 ^ 16) (2 ^ 16 - StatsSelect.digitsValue rest)
    else 0xffff
  | '+' :: rest => Fin.ofNat (2 ^ 16) (min (StatsSelect.digitsValue rest) 0xffff)
  | rest => Fin.ofNat (2 ^ 16) (min (StatsSelect.digitsValue rest) 0xffff)

/-- The operators a field has; others are an invalid argument. -/
def FlowField.accepts : FlowField → MatchOp → Bool
  | .vrouter, op | .sourcevn, op | .destvn, op => op = .EQUAL || op = .PREFIX
  | .sourceip, op | .destip, op | .protocol, op | .sport, op | .dport, op =>
    op = .IN_RANGE || op = .EQUAL

/-- What a predicate leaves to the filters. -/
def leftover (direction_ing : Direction) (t : WhereMatch) : Option FilterMatch :=
  match t.field with
  | .sourceip =>
    if direction_ing = .EGRESS then some { name := "sourceip", value := t.value, op := t.op }
    else none
  | .destip =>
    if direction_ing = .INGRESS then some { name := "destip", value := t.value, op := t.op }
    else none
  | .sport => some { name := "sport", value := toString (readUint16 t.value).val, op := t.op }
  | .dport => some { name := "dport", value := toString (readUint16 t.value).val, op := t.op }
  | .vrouter =>
    if t.op ≠ .PREFIX then some { name := "vrouter", value := t.value, op := t.op }
    else some { name := "vrouter", value := t.value, op := .REGEX_MATCH, match_e := t.value }
  | .sourcevn | .destvn | .protocol => none

/-- The variables of the loop over an OR term. `matched` are the predicates the
`_match` variables stand for: the last one on each field. -/
structure FlowMatch where
  matched : FlowField → Option WhereMatch
  filter_and : List FilterMatch
  additional_select_ : List String

/-- One turn of the loop; `none` is an invalid argument. -/
def addTerm (direction_ing : Direction) (m : FlowMatch) (t : WhereMatch) : Option FlowMatch :=
  if t.field.accepts t.op then
    some {
      matched := Function.update m.matched t.field (some t)
      filter_and := m.filter_and ++ (leftover direction_ing t).toList
      additional_select_ :=
        m.additional_select_ ++ ((leftover direction_ing t).map FilterMatch.name).toList }
  else none

def addTerms (direction_ing : Direction) (terms : List WhereMatch) : Option FlowMatch :=
  terms.foldlM (addTerm direction_ing) ⟨fun _ => none, [], []⟩

-- ---------------------------------------------------------------------------
-- Queries of the session table
-- ---------------------------------------------------------------------------

structure DbQueryUnit where
  session_type : SessionType
  start_ : List (Fin (2 ^ 16))
  finish_ : List (Fin (2 ^ 16))
  where_vec : List WhereIndexInfo

/-- `index_column_to_column` of the session table, for the columns used here. -/
def index_column_to_column : List (String × String) :=
  [("local_ip", "column20"), ("vn", "column21"), ("remote_vn", "column22")]

def query_column_to_cass_column (query_column : String) : Option String :=
  index_column_to_column.lookup query_column

/-- `populate_where_vec`, of the session table. -/
def populate_where_vec (query_col : String) (db_op : DbOp) (value : String) :
    Option (List WhereIndexInfo) :=
  (query_column_to_cass_column query_col).map fun columnN =>
    let val := match db_op with
      | .LIKE => value.toList ++ ['%']
      | .EQ => value.toList
    if val = ['%'] then [] else [⟨columnN, db_op, val⟩]

/-- The condition on an index column, if there is a predicate on the field. -/
def indexMatch (m : FlowMatch) (query_col : String) (field : FlowField) :
    Option (List WhereIndexInfo) :=
  match m.matched field with
  | none => some []
  | some t => populate_where_vec query_col (if t.op = .PREFIX then .LIKE else .EQ) t.value

/-- The bounds a predicate pushes to `cr.start_` and `cr.finish_`. -/
def bounds (t : WhereMatch) : List (Fin (2 ^ 16)) × List (Fin (2 ^ 16)) :=
  ([readUint16 t.value],
    if t.op = .EQUAL then [readUint16 t.value]
    else if t.op = .IN_RANGE then [readUint16 t.value2]
    else [])

def protocolBounds (m : FlowMatch) : List (Fin (2 ^ 16)) × List (Fin (2 ^ 16)) :=
  match m.matched .protocol with
  | some t => bounds t
  | none => ([0], [0xffff])

/-- A predicate on the server port needs one on the protocol. -/
def portBounds (m : FlowMatch) (port : FlowField) :
    Option (List (Fin (2 ^ 16)) × List (Fin (2 ^ 16))) :=
  match m.matched port with
  | some t => if (m.matched .protocol).isSome then some (bounds t) else none
  | none => some ([], [0xffff])

/-- The query of the sessions of one type, whose server port is the flow's `port`. -/
def session_query (direction_ing : Direction) (session_type : SessionType) (port : FlowField)
    (m : FlowMatch) : Option DbQueryUnit := do
  let ports ← portBounds m port
  let ip ← indexMatch m "local_ip" (if direction_ing = .INGRESS then .sourceip else .destip)
  let vn ← indexMatch m "vn" (if direction_ing = .INGRESS then .sourcevn else .destvn)
  let remote_vn ← indexMatch m "remote_vn" (if direction_ing = .INGRESS then .destvn else .sourcevn)
  some {
    session_type := session_type
    start_ := (protocolBounds m).1 ++ ports.1
    finish_ := (protocolBounds m).2 ++ ports.2
    where_vec := ip ++ vn ++ remote_vn }

def client_session_query (direction_ing : Direction) (m : FlowMatch) : Option DbQueryUnit :=
  session_query direction_ing .CLIENT_SESSION
    (if direction_ing = .INGRESS then .dport else .sport) m

def server_session_query (direction_ing : Direction) (m : FlowMatch) : Option DbQueryUnit :=
  session_query direction_ing .SERVER_SESSION
    (if direction_ing = .INGRESS then .sport else .dport) m

/-- An OR term; an empty one is an invalid argument. -/
structure OrTerm where
  units : List DbQueryUnit
  filter_and : List FilterMatch
  additional_select_ : List String

def orTerm (direction_ing : Direction) (terms : List WhereMatch) : Option OrTerm := do
  guard (terms.length ≠ 0)
  let m ← addTerms direction_ing terms
  let client ← client_session_query direction_ing m
  let server ← server_session_query direction_ing m
  some ⟨[client, server], m.filter_and, m.additional_select_⟩

/-- `WhereQuery::filter_list_`: what is left over of each OR term, if anything is. -/
def filter_list_ (or_terms : List OrTerm) : FilterList :=
  (or_terms.map OrTerm.filter_and).filter fun filter_and => !filter_and.isEmpty

/-- `PostProcessingQuery::filter_list`, from that of the query and that of WHERE. -/
def postFilterList (filter_list where_list : FilterList) : FilterList :=
  if where_list.isEmpty then filter_list
  else if filter_list.isEmpty then where_list
  else filter_list.map fun filter_and => filter_and ++ where_list.flatten

-- ---------------------------------------------------------------------------
-- Session rows
-- ---------------------------------------------------------------------------

/-- A session: a row of the table, with the entry of its session map that the client
port and the remote IP come from. -/
structure SessionRow where
  session_type : SessionType
  protocol : Fin (2 ^ 16)
  server_port : Fin (2 ^ 16)
  client_port : Fin (2 ^ 16)
  local_ip : String
  remote_ip : String
  vn : String
  remote_vn : String
  vrouter : String

/-- The index columns, with the time row in front. -/
def SessionRow.column (T2 : Nat) (row : SessionRow) : String → Option Text
  | "column20" => some (PrependT2 T2 row.local_ip.toList)
  | "column21" => some (PrependT2 T2 row.vn.toList)
  | "column22" => some (PrependT2 T2 row.remote_vn.toList)
  | _ => none

/-- A slice of the clustering columns. -/
def inSlice (start_ finish_ key : List (Fin (2 ^ 16))) : Prop :=
  start_ ≤ key.take start_.length ∧ key.take finish_.length ≤ finish_

/-- The row is in the answer of the database. -/
structure DbQueryUnit.Selects (T2 : Nat) (unit : DbQueryUnit) (row : SessionRow) : Prop where
  type_eq : unit.session_type = row.session_type
  slice : inSlice unit.start_ unit.finish_ [row.protocol, row.server_port]
  indexes : ∀ info ∈ unit.where_vec, (TagPredicate.index info).holds T2 (row.column T2) = true

-- ---------------------------------------------------------------------------
-- Flow attributes
-- ---------------------------------------------------------------------------

/-- `session2flow_maps`, for the attributes used here. -/
def session2flow_map : Direction → SessionType → List (String × String)
  | .INGRESS, .CLIENT_SESSION =>
    [("local_ip", "sourceip"), ("remote_ip", "destip"), ("server_port", "dport"),
      ("client_port", "sport"), ("vn", "sourcevn"), ("remote_vn", "destvn")]
  | .EGRESS, .CLIENT_SESSION =>
    [("local_ip", "destip"), ("remote_ip", "soureceip"), ("server_port", "sport"),
      ("client_port", "dport"), ("vn", "destvn"), ("remote_vn", "sourcevn")]
  | .INGRESS, .SERVER_SESSION =>
    [("local_ip", "sourceip"), ("remote_ip", "destip"), ("server_port", "sport"),
      ("client_port", "dport"), ("vn", "sourcevn"), ("remote_vn", "destvn")]
  | .EGRESS, .SERVER_SESSION =>
    [("local_ip", "destip"), ("remote_ip", "sourceip"), ("server_port", "dport"),
      ("client_port", "sport"), ("vn", "destvn"), ("remote_vn", "sourcevn")]

section Attributes

variable {δ : Type}

def map_session_to_flow (attribs_ : List (StatEntry δ)) (session_type : SessionType)
    (direction : Direction) : List (StatEntry δ) :=
  attribs_.map fun it =>
    match (session2flow_map direction session_type).lookup it.name with
    | some name => { it with name := name }
    | none => it

def numberEntry (name : String) (n : Fin (2 ^ 16)) : StatEntry δ :=
  ⟨name, .uint64 (n.castLE (by decide))⟩

/-- The attributes before they are renamed. Those of the session map are there if it
is unrolled. `SessionTableAttributeConverter` leaves an empty vrouter out; the index
columns are never empty, and the time row is taken off. -/
def sessionAttribs (unroll_needed : Bool) (row : SessionRow) : List (StatEntry δ) :=
  (if unroll_needed then
    [numberEntry "client_port" row.client_port, ⟨"remote_ip", .string row.remote_ip⟩]
  else []) ++
  [numberEntry "protocol" row.protocol, numberEntry "server_port" row.server_port,
    ⟨"local_ip", .string row.local_ip⟩, ⟨"vn", .string row.vn⟩,
    ⟨"remote_vn", .string row.remote_vn⟩] ++
  (if row.vrouter = "" then [] else [⟨"vrouter", .string row.vrouter⟩])

/-- `attribs` of `LoadRow`. -/
def flowAttribs (direction_ing : Direction) (unroll_needed : Bool) (row : SessionRow) :
    List (StatEntry δ) :=
  map_session_to_flow
    (sessionAttribs unroll_needed row ++
      [⟨"direction_ing", .uint64 (if direction_ing = .INGRESS then 1 else 0)⟩])
    row.session_type direction_ing

end Attributes

def session_json_fields : List String :=
  ["remote_ip", "client_port", "other_vrouter_ip", "underlay_proto", "forward_flow_uuid",
    "forward_setup_time", "forward_teardown_time", "forward_action", "forward_sg_rule_uuid",
    "forward_nw_ave_uuid", "forward_underlay_source_port", "forward_drop_reason",
    "forward_teardown_bytes", "forward_teardown_pkts", "reverse_flow_uuid", "reverse_setup_time",
    "reverse_teardown_time", "reverse_action", "reverse_sg_rule_uuid", "reverse_nw_ave_uuid",
    "reverse_underlay_source_port", "reverse_drop_reason", "reverse_teardown_bytes",
    "reverse_teardown_pkts", "sourceip", "destip", "dport", "sport", "UuidKey", "setup_time",
    "teardown_time", "agg-bytes", "agg-pkts", "action", "sg_rule_uuid", "nw_ace_uuid",
    "underlay_source_port", "drop_reason"]

/-- `unroll_needed` of a flow query. The fields WHERE adds to the selected ones are not
looked at. -/
def unrollNeeded (table : String) (direction : Direction) (select_fields : List String) : Bool :=
  (select_fields.any fun field =>
    !((direction = .INGRESS && field = "sourceip") || (direction = .EGRESS && field = "destip")) &&
      field ∈ session_json_fields) ||
    (table = "FlowRecordTable" && "UuidKey" ∉ select_fields)

/-- The columns a flow query selects for its own fields. -/
def selectColumns (table : String) (select_fields : List String) : List String :=
  let columns := (select_fields.filter (· ≠ "flow_class_id")).map fun field =>
    if field = "agg-packets" ∨ field = "agg-bytes" then "SUM(" ++ field ++ ")" else field
  columns ++
    (if "flow_class_id" ∈ select_fields then (columns.take 1).map ("CLASS(" ++ · ++ ")") else []) ++
    (if table = "FlowRecordTable" ∧ "UuidKey" ∉ select_fields then ["UuidKey"] else [])

-- ---------------------------------------------------------------------------
-- What is admitted, and what is asked for
-- ---------------------------------------------------------------------------

/-- A flow query with one OR term: what it selects, and what its term became. -/
structure FlowQuery where
  table : String
  direction_ing : Direction
  select_fields : List String
  sort_fields : List String
  terms : List WhereMatch
  term : OrTerm
  stats : StatsSelect
  parsed : orTerm direction_ing terms = some term
  built : ∃ known, StatsSelect.build known (selectColumns table select_fields ++
    term.additional_select_) sort_fields = some stats
  status : stats.status_ = true

namespace FlowQuery

variable (q : FlowQuery)

def unroll_needed : Bool := unrollNeeded q.table q.direction_ing q.select_fields

/-- The attributes of a row that filters look at. -/
def attrs {δ : Type} (u : Nat) (timestamp : Fin (2 ^ 64)) (row : SessionRow) : StatMap δ :=
  StatsSelect.buildUniks q.stats ⟨u, timestamp, flowAttribs q.direction_ing q.unroll_needed row⟩

/-- There is no filter but that of WHERE. -/
def filter_list : FilterList := postFilterList [] (filter_list_ [q.term])

/-- One of the queries has the row in its answer, and the filters keep it. -/
def Admits {δ : Type} [LinearOrder δ] (C : Conversions δ) (T2 u : Nat) (timestamp : Fin (2 ^ 64))
    (row : SessionRow) : Prop :=
  (∃ unit ∈ q.term.units, unit.Selects T2 row) ∧
    (q.filter_list.length ≠ 0 → statKeeps C q.filter_list (q.attrs u timestamp row) = true)

end FlowQuery

namespace SessionRow

variable (direction_ing : Direction) (row : SessionRow)

/-- The flow's side that is the local one of the session. -/
def text : FlowField → String
  | .vrouter => row.vrouter
  | .sourcevn => if direction_ing = .INGRESS then row.vn else row.remote_vn
  | .destvn => if direction_ing = .INGRESS then row.remote_vn else row.vn
  | .sourceip => if direction_ing = .INGRESS then row.local_ip else row.remote_ip
  | .destip => if direction_ing = .INGRESS then row.remote_ip else row.local_ip
  | .protocol | .sport | .dport => ""

/-- The port of the flow that is the server's. -/
def serverField : FlowField :=
  if direction_ing = .INGRESS ↔ row.session_type = .CLIENT_SESSION then .dport else .sport

def number : FlowField → Fin (2 ^ 16)
  | .protocol => row.protocol
  | field => if field = row.serverField direction_ing then row.server_port else row.client_port

end SessionRow

namespace WhereMatch

/-- What a predicate says of a text, with `ipOf` for the addresses of IPs. -/
def HoldsText (ipOf : String → Nat) (t : WhereMatch) (text : String) : Prop :=
  match t.op with
  | .EQUAL => text = t.value
  | .PREFIX => t.value.toList <+: text.toList
  | .IN_RANGE => ipOf t.value ≤ ipOf text ∧ ipOf text ≤ ipOf t.value2
  | _ => False

/-- What a predicate says of a number. -/
def HoldsNumber (t : WhereMatch) (n : Nat) : Prop :=
  match t.op with
  | .EQUAL => IsDecimal t.value ∧ n = decimalValue t.value
  | .IN_RANGE => (IsDecimal t.value ∧ decimalValue t.value ≤ n) ∧
      IsDecimal t.value2 ∧ n ≤ decimalValue t.value2
  | _ => False

/-- The session row satisfies the predicate on the flow. -/
def Holds (ipOf : String → Nat) (direction_ing : Direction) (row : SessionRow) (t : WhereMatch) :
    Prop :=
  match t.field with
  | .protocol | .sport | .dport => t.HoldsNumber (row.number direction_ing t.field).val
  | _ => t.HoldsText ipOf (row.text direction_ing t.field)

/-- The bounds are numbers, and the lower one fits. -/
def ReadsNumbers (t : WhereMatch) : Prop :=
  IsDecimal t.value ∧ decimalValue t.value < 2 ^ 16 ∧ (t.op = .IN_RANGE → IsDecimal t.value2)

/-- Only one number satisfies the predicate. -/
def SingleNumber (t : WhereMatch) : Prop :=
  t.op = .EQUAL ∨ decimalValue t.value = decimalValue t.value2

/-- The text has no `%` that the database would take for more than itself. -/
def Literal (t : WhereMatch) : Prop :=
  if t.op = .PREFIX then '%' ∉ t.value.toList else t.value.toList.head? ≠ some '%'

end WhereMatch

/-- The last predicate on a field. -/
def lastOn (field : FlowField) (terms : List WhereMatch) : Option WhereMatch :=
  (terms.filter fun t => t.field = field).getLast?

/-- The session map is unrolled, and the name the filters ask for is the one the
remote IP has: that of egress flows of client sessions is misspelt. -/
def RemoteKnown (q : FlowQuery) (row : SessionRow) : Prop :=
  q.unroll_needed = true ∧ ¬ (q.direction_ing = .EGRESS ∧ row.session_type = .CLIENT_SESSION)

/-- The predicate is one the code evaluates as it says, on this row. -/
def ReadRight {δ : Type} (C : Conversions δ) (q : FlowQuery) (row : SessionRow) (t : WhereMatch) :
    Prop :=
  match t.field with
  | .vrouter => row.vrouter ≠ "" ∧ (t.op = .PREFIX →
      (C.regex_match row.vrouter t.value = true ↔ t.value.toList <+: row.vrouter.toList))
  | .sourcevn | .destvn => t.Literal
  | .sourceip | .destip => t.op = .EQUAL ∧
      if (t.field = .sourceip ↔ q.direction_ing = .INGRESS) then t.Literal else RemoteKnown q row
  | .protocol => t.ReadsNumbers
  | .sport | .dport => t.ReadsNumbers ∧
      if t.field = row.serverField q.direction_ing then
        (t.op = .IN_RANGE → ∀ t' ∈ q.terms, t'.field = .protocol → t'.SingleNumber)
      else t.op = .EQUAL ∧ q.unroll_needed = true

-- ---------------------------------------------------------------------------
-- The loop over a term
-- ---------------------------------------------------------------------------

/-- What the loop has found so far. -/
structure Found (direction_ing : Direction) (terms : List WhereMatch) (m : FlowMatch) : Prop where
  accepted : ∀ t ∈ terms, t.field.accepts t.op = true
  matched_eq : ∀ field, m.matched field = lastOn field terms
  filter_and_eq : m.filter_and = terms.filterMap (leftover direction_ing)
  additional_select_eq :
    m.additional_select_ = (terms.filterMap (leftover direction_ing)).map FilterMatch.name

theorem lastOn_append (field : FlowField) (terms : List WhereMatch) (t : WhereMatch) :
    lastOn field (terms ++ [t]) = if field = t.field then some t else lastOn field terms := by
  unfold lastOn
  rw [List.filter_append]
  split
  · next hfield =>
    rw [List.filter_cons_of_pos (by simp [hfield]), List.filter_nil, List.getLast?_concat]
  · next hfield =>
    rw [List.filter_cons_of_neg (by simpa using fun h => hfield h.symm), List.filter_nil,
      List.append_nil]

theorem mem_of_lastOn {field : FlowField} {terms : List WhereMatch} {t : WhereMatch}
    (h : lastOn field terms = some t) : t ∈ terms ∧ t.field = field := by
  have hmem := List.mem_filter.mp (List.mem_of_getLast? h)
  exact ⟨hmem.1, of_decide_eq_true hmem.2⟩

theorem Found.addTerm {direction_ing : Direction} {terms : List WhereMatch} {m m' : FlowMatch}
    (h : Found direction_ing terms m) {t : WhereMatch} (ht : addTerm direction_ing m t = some m') :
    Found direction_ing (terms ++ [t]) m' := by
  unfold FlowWhere.addTerm at ht
  split at ht
  · next haccepts =>
    injection ht with ht
    subst ht
    refine ⟨?_, ?_, ?_, ?_⟩
    · intro t' ht'
      rcases List.mem_append.mp ht' with ht' | ht'
      · exact h.accepted t' ht'
      · rw [List.mem_singleton.mp ht']
        exact haccepts
    · intro field
      show Function.update m.matched t.field (some t) field = _
      rw [lastOn_append, Function.update_apply, h.matched_eq]
    · rw [List.filterMap_append, h.filter_and_eq]
      cases hleft : leftover direction_ing t <;> simp [hleft]
    · rw [List.filterMap_append, h.additional_select_eq, List.map_append]
      cases hleft : leftover direction_ing t <;> simp [hleft]
  · cases ht

theorem found_addTerms {direction_ing : Direction} {terms : List WhereMatch} {m : FlowMatch}
    (h : addTerms direction_ing terms = some m) : Found direction_ing terms m := by
  have hloop : ∀ (rest done : List WhereMatch) (m₀ : FlowMatch), Found direction_ing done m₀ →
      rest.foldlM (FlowWhere.addTerm direction_ing) m₀ = some m →
      Found direction_ing (done ++ rest) m := by
    intro rest
    induction rest with
    | nil =>
      intro done m₀ h₀ hrun
      injection hrun with hrun
      rw [← hrun, List.append_nil]
      exact h₀
    | cons t rest ih =>
      intro done m₀ h₀ hrun
      rw [List.foldlM_cons] at hrun
      obtain ⟨m₁, hm₁, hrun⟩ := Option.bind_eq_some_iff.mp hrun
      have := ih (done ++ [t]) m₁ (h₀.addTerm hm₁) hrun
      rwa [List.append_assoc] at this
  have hinit : Found direction_ing [] ⟨fun _ => none, [], []⟩ :=
    ⟨nofun, fun _ => rfl, rfl, rfl⟩
  exact hloop terms [] _ hinit h

/-- The parts of an accepted term. -/
theorem exists_of_orTerm {direction_ing : Direction} {terms : List WhereMatch} {term : OrTerm}
    (h : orTerm direction_ing terms = some term) :
    ∃ m client server, Found direction_ing terms m ∧
      client_session_query direction_ing m = some client ∧
      server_session_query direction_ing m = some server ∧
      term = ⟨[client, server], m.filter_and, m.additional_select_⟩ := by
  unfold orTerm at h
  obtain ⟨-, -, h⟩ := Option.bind_eq_some_iff.mp h
  obtain ⟨m, hm, h⟩ := Option.bind_eq_some_iff.mp h
  obtain ⟨client, hclient, h⟩ := Option.bind_eq_some_iff.mp h
  obtain ⟨server, hserver, h⟩ := Option.bind_eq_some_iff.mp h
  injection h with h
  exact ⟨m, client, server, found_addTerms hm, hclient, hserver, h.symm⟩

end TfAnalytics.QueryEngine.FlowWhere
