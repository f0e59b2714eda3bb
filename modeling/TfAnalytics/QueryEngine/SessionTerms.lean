import Mathlib
import TfAnalytics.QueryEngine.FlowSlices
import TfAnalytics.QueryEngine.WhereVectors

/-!
# Query engine — OR terms of session queries

The constructor of `WhereQuery` keeps the last predicate on the protocol and the last
one on the server port for a slice of the clustering columns. Predicates on labels and
tags become `LIKE` conditions, to be dealt out over the sub-queries; those on all other
fields become `LIKE` for PREFIX and `EQ` for any other operator.

A row is in the answer when every sub-query selects it.

* `admits_iff` — the slice and the conditions of a term, whatever the sub-queries are.
-/

namespace TfAnalytics.QueryEngine.SessionWhere

open TfAnalytics.Lib TfAnalytics.Collector
open FlowWhere (readUint16 inSlice)

-- ---------------------------------------------------------------------------
-- Terms
-- ---------------------------------------------------------------------------

/-- The fields with a set of texts. -/
inductive SetField where
  | labels
  | remote_labels
  | custom_tags
  | remote_custom_tags
  deriving DecidableEq

/-- The fields with one text. -/
inductive TextField where
  | deployment
  | tier
  | application
  | site
  | remote_deployment
  | remote_tier
  | remote_application
  | remote_site
  | remote_prefix
  | security_policy_rule
  | vmi
  | local_ip
  | vn
  | remote_vn
  deriving DecidableEq

/-- The fields WHERE takes. -/
inductive SessionField where
  | protocol
  | server_port
  | is_service_instance
  | session_type
  | set (field : SetField)
  | text (field : TextField)
  deriving DecidableEq

/-- A predicate of an OR term; `value2` is read with IN_RANGE. -/
structure SessionMatch where
  field : SessionField
  op : MatchOp
  value : String
  value2 : String := ""
  deriving DecidableEq

/-- `index_column_to_column` of the session table. -/
def index_column_to_column : SessionField → Option String
  | .text .deployment => some "column5"
  | .text .tier => some "column6"
  | .text .application => some "column7"
  | .text .site => some "column8"
  | .set .labels => some "column9"
  | .set .custom_tags => some "column10"
  | .text .remote_deployment => some "column11"
  | .text .remote_tier => some "column12"
  | .text .remote_application => some "column13"
  | .text .remote_site => some "column14"
  | .set .remote_labels => some "column15"
  | .set .remote_custom_tags => some "column16"
  | .text TextField.remote_prefix => some "column17"
  | .text .security_policy_rule => some "column18"
  | .text .vmi => some "column19"
  | .text .local_ip => some "column20"
  | .text .vn => some "column21"
  | .text .remote_vn => some "column22"
  | .protocol | .server_port | .is_service_instance | .session_type => none

/-- `populate_where_vec`, of the session table. -/
def populate_where_vec (query_col : SessionField) (db_op : DbOp) (value : Text) :
    Option (WhereIndexInfoVec WhereIndexInfo) :=
  (index_column_to_column query_col).map fun columnN =>
    let val := match db_op with
      | .LIKE => value ++ ['%']
      | .EQ => value
    if val = ['%'] then [] else [⟨columnN, db_op, val⟩]

/-- The variables of the loop over an OR term. -/
structure SessionMatches where
  proto_match : Option SessionMatch
  sport_match : Option SessionMatch
  tags_vec : SetField → WhereIndexInfoVec WhereIndexInfo
  where_vec_session_rest : WhereIndexInfoVec WhereIndexInfo

/-- One turn of the loop; `none` is an invalid argument. -/
def addTerm (m : SessionMatches) (t : SessionMatch) : Option SessionMatches :=
  match t.field with
  | .protocol =>
    if t.op = .IN_RANGE ∨ t.op = .EQUAL then some { m with proto_match := some t } else none
  | .server_port =>
    if t.op = .IN_RANGE ∨ t.op = .EQUAL then some { m with sport_match := some t } else none
  | .set field =>
    if t.op = .CONTAINS then
      (populate_where_vec t.field .LIKE ('%' :: t.value.toList)).map fun infos =>
        { m with tags_vec := Function.update m.tags_vec field (m.tags_vec field ++ infos) }
    else none
  | _ =>
    (populate_where_vec t.field (if t.op = .PREFIX then .LIKE else .EQ) t.value.toList).map
      fun infos => { m with where_vec_session_rest := m.where_vec_session_rest ++ infos }

def addTerms (terms : List SessionMatch) : Option SessionMatches :=
  terms.foldlM addTerm ⟨none, none, fun _ => [], []⟩

/-- The row key is that of the session type of the query. -/
structure DbQueryUnit where
  start_ : List (Fin (2 ^ 16))
  finish_ : List (Fin (2 ^ 16))
  where_vec : WhereIndexInfoVec WhereIndexInfo

/-- The bounds a predicate pushes to `cr.start_` and `cr.finish_`. -/
def bounds (t : SessionMatch) : List (Fin (2 ^ 16)) × List (Fin (2 ^ 16)) :=
  ([readUint16 t.value],
    if t.op = .EQUAL then [readUint16 t.value]
    else if t.op = .IN_RANGE then [readUint16 t.value2]
    else [])

def protocolBounds (m : SessionMatches) : List (Fin (2 ^ 16)) × List (Fin (2 ^ 16)) :=
  match m.proto_match with
  | some t => bounds t
  | none => ([0], [0xffff])

/-- A predicate on the server port needs one on the protocol. -/
def portBounds (m : SessionMatches) : Option (List (Fin (2 ^ 16)) × List (Fin (2 ^ 16))) :=
  match m.sport_match with
  | some t => if m.proto_match.isSome then some (bounds t) else none
  | none => some ([], [0xffff])

/-- An OR term; an empty one is an invalid argument. -/
def orTerm (terms : List SessionMatch) : Option (List DbQueryUnit) := do
  guard (terms.length ≠ 0)
  let m ← addTerms terms
  let ports ← portBounds m
  let where_vec_list := populate_session_where_vec_list m.where_vec_session_rest
    (m.tags_vec .labels) (m.tags_vec .remote_labels) (m.tags_vec .custom_tags)
    (m.tags_vec .remote_custom_tags)
  some <| where_vec_list.map fun where_vec => {
    start_ := (protocolBounds m).1 ++ ports.1
    finish_ := (protocolBounds m).2 ++ ports.2
    where_vec := where_vec }

-- ---------------------------------------------------------------------------
-- Session rows
-- ---------------------------------------------------------------------------

/-- A row under the row key of the query. A text that the session message does not have
is stored as `__UNKNOWN__`, a set as the set of that text. -/
structure SessionRow where
  protocol : Fin (2 ^ 16)
  server_port : Fin (2 ^ 16)
  set : SetField → List Text
  text : TextField → Text

/-- The elements of a set are stored one after the other. -/
def setText (elements : List Text) : Text := List.intercalate [';'] elements

/-- The index columns, with the time row in front. -/
def SessionRow.column (T2 : Nat) (row : SessionRow) : String → Option Text
  | "column5" => some (PrependT2 T2 (row.text .deployment))
  | "column6" => some (PrependT2 T2 (row.text .tier))
  | "column7" => some (PrependT2 T2 (row.text .application))
  | "column8" => some (PrependT2 T2 (row.text .site))
  | "column9" => some (PrependT2 T2 (setText (row.set .labels)))
  | "column10" => some (PrependT2 T2 (setText (row.set .custom_tags)))
  | "column11" => some (PrependT2 T2 (row.text .remote_deployment))
  | "column12" => some (PrependT2 T2 (row.text .remote_tier))
  | "column13" => some (PrependT2 T2 (row.text .remote_application))
  | "column14" => some (PrependT2 T2 (row.text .remote_site))
  | "column15" => some (PrependT2 T2 (setText (row.set .remote_labels)))
  | "column16" => some (PrependT2 T2 (setText (row.set .remote_custom_tags)))
  | "column17" => some (PrependT2 T2 (row.text TextField.remote_prefix))
  | "column18" => some (PrependT2 T2 (row.text .security_policy_rule))
  | "column19" => some (PrependT2 T2 (row.text .vmi))
  | "column20" => some (PrependT2 T2 (row.text .local_ip))
  | "column21" => some (PrependT2 T2 (row.text .vn))
  | "column22" => some (PrependT2 T2 (row.text .remote_vn))
  | _ => none

/-- The row is in the answer of the database. -/
structure DbQueryUnit.Selects (T2 : Nat) (unit : DbQueryUnit) (row : SessionRow) : Prop where
  slice : inSlice unit.start_ unit.finish_ [row.protocol, row.server_port]
  indexes : ∀ info ∈ unit.where_vec, (TagPredicate.index info).holds T2 (row.column T2) = true

/-- The answers of the sub-queries are intersected. -/
def Admits (T2 : Nat) (units : List DbQueryUnit) (row : SessionRow) : Prop :=
  ∀ unit ∈ units, unit.Selects T2 row

theorem column_set (field : SetField) : ∃ columnN,
    index_column_to_column (.set field) = some columnN ∧ ∀ (T2 : Nat) (row : SessionRow),
      row.column T2 columnN = some (PrependT2 T2 (setText (row.set field))) := by
  cases field <;> exact ⟨_, rfl, fun _ _ => rfl⟩

theorem column_text (field : TextField) : ∃ columnN,
    index_column_to_column (.text field) = some columnN ∧ ∀ (T2 : Nat) (row : SessionRow),
      row.column T2 columnN = some (PrependT2 T2 (row.text field)) := by
  cases field <;> exact ⟨_, rfl, fun _ _ => rfl⟩

-- ---------------------------------------------------------------------------
-- What the loop keeps
-- ---------------------------------------------------------------------------

/-- The operators a field has; others, and fields without an index, are an invalid
argument. -/
def SessionField.accepts : SessionField → MatchOp → Bool
  | .protocol, op | .server_port, op => op = .IN_RANGE || op = .EQUAL
  | .set _, op => op = .CONTAINS
  | .text _, _ => true
  | .is_service_instance, _ | .session_type, _ => false

/-- The condition of a predicate on labels or tags. -/
def tagCondition (columnN : String) (value : Text) : WhereIndexInfo :=
  ⟨columnN, .LIKE, '%' :: (value ++ ['%'])⟩

/-- The conditions of a predicate on a text. -/
def textConditions (t : SessionMatch) (columnN : String) : WhereIndexInfoVec WhereIndexInfo :=
  if t.op = .PREFIX then
    if t.value = "" then [] else [⟨columnN, .LIKE, t.value.toList ++ ['%']⟩]
  else if t.value.toList = ['%'] then [] else [⟨columnN, .EQ, t.value.toList⟩]

/-- What a predicate adds to the conditions of a set. -/
def tagInfos (field : SetField) (t : SessionMatch) : WhereIndexInfoVec WhereIndexInfo :=
  if t.field = .set field then
    ((index_column_to_column t.field).map fun columnN => tagCondition columnN t.value.toList).toList
  else []

/-- What a predicate adds to the other conditions. -/
def restInfos (t : SessionMatch) : WhereIndexInfoVec WhereIndexInfo :=
  match t.field with
  | .text field => ((index_column_to_column (.text field)).map (textConditions t)).getD []
  | _ => []

/-- One turn of the loop, by what it leaves in each variable. -/
structure Added (m : SessionMatches) (t : SessionMatch) (m' : SessionMatches) : Prop where
  accepts : t.field.accepts t.op = true
  proto : m'.proto_match = if t.field = .protocol then some t else m.proto_match
  sport : m'.sport_match = if t.field = .server_port then some t else m.sport_match
  tags : ∀ field, m'.tags_vec field = m.tags_vec field ++ tagInfos field t
  rest : m'.where_vec_session_rest = m.where_vec_session_rest ++ restInfos t

theorem populate_tag (field : SetField) (value : Text) :
    populate_where_vec (.set field) .LIKE ('%' :: value) =
      (index_column_to_column (.set field)).map fun columnN => [tagCondition columnN value] := by
  unfold populate_where_vec
  congr 1
  funext columnN
  have hne : '%' :: (value ++ ['%']) ≠ ['%'] := by simp
  show (if '%' :: (value ++ ['%']) = ['%'] then [] else _) = _
  rw [if_neg hne]
  rfl

theorem populate_text (t : SessionMatch) (field : TextField) :
    populate_where_vec (.text field) (if t.op = .PREFIX then .LIKE else .EQ) t.value.toList =
      (index_column_to_column (.text field)).map (textConditions t) := by
  unfold populate_where_vec textConditions
  congr 1
  funext columnN
  by_cases hop : t.op = .PREFIX
  · rw [if_pos hop, if_pos hop]
    by_cases hvalue : t.value = ""
    · simp [hvalue]
    · have hne : t.value.toList ++ ['%'] ≠ ['%'] := by simpa using hvalue
      rw [if_neg hvalue]
      exact if_neg hne
  · rw [if_neg hop, if_neg hop]

theorem addTerm_cases {m m' : SessionMatches} {t : SessionMatch} (h : addTerm m t = some m') :
    Added m t m' := by
  obtain ⟨field, op, value, value2⟩ := t
  cases field with
  | protocol =>
    simp only [addTerm] at h
    split at h
    next hop =>
      obtain rfl := Option.some.inj h
      exact ⟨by simpa [SessionField.accepts] using hop, by simp, by simp, by simp [tagInfos],
        by simp [restInfos]⟩
    · cases h
  | server_port =>
    simp only [addTerm] at h
    split at h
    next hop =>
      obtain rfl := Option.some.inj h
      exact ⟨by simpa [SessionField.accepts] using hop, by simp, by simp, by simp [tagInfos],
        by simp [restInfos]⟩
    · cases h
  | is_service_instance => cases h
  | session_type => cases h
  | set field =>
    obtain ⟨columnN, hcolumn, -⟩ := column_set field
    simp only [addTerm] at h
    split at h
    next hop =>
      rw [populate_tag, hcolumn] at h
      obtain rfl := Option.some.inj h
      refine ⟨by simpa [SessionField.accepts] using hop, by simp, by simp, fun other => ?_,
        by simp [restInfos]⟩
      by_cases hother : field = other
      · subst hother
        simp [tagInfos, hcolumn]
      · simp [tagInfos, hother, Function.update_of_ne (Ne.symm hother)]
    · cases h
  | text field =>
    obtain ⟨columnN, hcolumn, -⟩ := column_text field
    have hpopulate := populate_text ⟨.text field, op, value, value2⟩ field
    rw [hcolumn, Option.map_some] at hpopulate
    simp only [addTerm, hpopulate, Option.map_some, Option.some.injEq] at h
    subst h
    exact ⟨rfl, by simp, by simp, by simp [tagInfos], by simp [restInfos, hcolumn]⟩

/-- The last predicate on a field. -/
def lastOn (terms : List SessionMatch) (field : SessionField) : Option SessionMatch :=
  terms.reverse.find? fun t => t.field = field

theorem lastOn_cons (t : SessionMatch) (terms : List SessionMatch) (field : SessionField) :
    lastOn (t :: terms) field =
      (lastOn terms field).or (if t.field = field then some t else none) := by
  unfold lastOn
  rw [List.reverse_cons, List.find?_append]
  congr 1
  by_cases hfield : t.field = field
  · simp [hfield]
  · simp [hfield]

theorem mem_of_lastOn {terms : List SessionMatch} {field : SessionField} {t : SessionMatch}
    (h : lastOn terms field = some t) : t ∈ terms ∧ t.field = field :=
  ⟨List.mem_reverse.mp (List.mem_of_find?_eq_some h), by simpa using List.find?_some h⟩

/-- The loop, by what it leaves in each variable. -/
theorem foldlM_addTerm {terms : List SessionMatch} {m m' : SessionMatches}
    (h : terms.foldlM addTerm m = some m') :
    (∀ t ∈ terms, t.field.accepts t.op = true) ∧
      m'.proto_match = (lastOn terms .protocol).or m.proto_match ∧
      m'.sport_match = (lastOn terms .server_port).or m.sport_match ∧
      (∀ field, m'.tags_vec field = m.tags_vec field ++ terms.flatMap (tagInfos field)) ∧
      m'.where_vec_session_rest = m.where_vec_session_rest ++ terms.flatMap restInfos := by
  induction terms generalizing m with
  | nil =>
    obtain rfl := Option.some.inj h
    simp [lastOn]
  | cons t terms ih =>
    rw [List.foldlM_cons] at h
    obtain ⟨m₁, hm₁, hrun⟩ := Option.bind_eq_some_iff.mp h
    have hadded := addTerm_cases hm₁
    obtain ⟨haccepts, hproto, hsport, htags, hrest⟩ := ih hrun
    refine ⟨List.forall_mem_cons.mpr ⟨hadded.accepts, haccepts⟩, ?_, ?_, fun field => ?_, ?_⟩
    · rw [hproto, hadded.proto, lastOn_cons, Option.or_assoc]
      split <;> rfl
    · rw [hsport, hadded.sport, lastOn_cons, Option.or_assoc]
      split <;> rfl
    · rw [htags, hadded.tags, List.flatMap_cons, List.append_assoc]
    · rw [hrest, hadded.rest, List.flatMap_cons, List.append_assoc]

-- ---------------------------------------------------------------------------
-- What the sub-queries ask together
-- ---------------------------------------------------------------------------

/-- What the database asks of a text for a predicate on it. -/
def SessionMatch.Compares (T2 : Nat) (t : SessionMatch) (text : Text) : Prop :=
  if t.op = .PREFIX then
    t.value = "" ∨ like (PipelineCb T2 (t.value.toList ++ ['%'])) (PrependT2 T2 text) = true
  else t.value.toList = ['%'] ∨ t.value.toList.head? ≠ some '%' ∧ text = t.value.toList

/-- The values of the predicates on a set. -/
def tagValues (terms : List SessionMatch) (field : SetField) : List Text :=
  (terms.filter fun t => t.field = .set field).map fun t => t.value.toList

theorem textConditions_hold_iff (T2 : Nat) (t : SessionMatch) {columnN : String} {row : SessionRow}
    {text : Text} (hcolumn : row.column T2 columnN = some (PrependT2 T2 text)) :
    (∀ info ∈ textConditions t columnN, (TagPredicate.index info).holds T2 (row.column T2) = true) ↔
      t.Compares T2 text := by
  unfold textConditions SessionMatch.Compares
  by_cases hop : t.op = .PREFIX
  · rw [if_pos hop, if_pos hop]
    by_cases hvalue : t.value = ""
    · simp [hvalue]
    · simp [hvalue, TagPredicate.holds, hcolumn]
  · rw [if_neg hop, if_neg hop]
    by_cases hvalue : t.value.toList = ['%']
    · simp [hvalue]
    · simp only [hvalue, if_false, List.mem_singleton, forall_eq, TagPredicate.holds, hcolumn,
        decide_eq_true_eq, false_or]
      exact pipelineCb_eq_iff T2 text t.value.toList

theorem restInfos_hold_iff (T2 : Nat) (t : SessionMatch) (row : SessionRow) :
    (∀ info ∈ restInfos t, (TagPredicate.index info).holds T2 (row.column T2) = true) ↔
      ∀ field, t.field = .text field → t.Compares T2 (row.text field) := by
  unfold restInfos
  cases hfield : t.field with
  | text field =>
    obtain ⟨columnN, hindex, hcolumn⟩ := column_text field
    simp only [hindex, Option.map_some, Option.getD_some, SessionField.text.injEq, forall_eq']
    exact textConditions_hold_iff T2 t (hcolumn T2 row)
  | _ => simp

theorem tagCondition_holds_iff (T2 : Nat) {columnN : String} {row : SessionRow} {text value : Text}
    (hcolumn : row.column T2 columnN = some (PrependT2 T2 text)) :
    (TagPredicate.index (tagCondition columnN value)).holds T2 (row.column T2) = true ↔
      Occurs value (PrependT2 T2 text) := by
  simp only [TagPredicate.holds, tagCondition, hcolumn, PipelineCb, List.head?_cons, if_true]
  exact like_contains_iff

theorem flatMap_tagInfos (terms : List SessionMatch) {field : SetField} {columnN : String}
    (hcolumn : index_column_to_column (.set field) = some columnN) :
    terms.flatMap (tagInfos field) = (tagValues terms field).map (tagCondition columnN) := by
  induction terms with
  | nil => rfl
  | cons t terms ih =>
    rw [List.flatMap_cons, ih]
    by_cases hfield : t.field = .set field
    · simp [tagInfos, tagValues, hfield, hcolumn]
    · simp [tagInfos, tagValues, hfield]

/-- Only so many predicates on each set are dealt out. -/
def dealtOut (terms : List SessionMatch) : Nat :=
  max (max (max (tagValues terms .labels).length (tagValues terms .remote_labels).length)
    (tagValues terms .custom_tags).length) (tagValues terms .remote_custom_tags).length % 2 ^ 16

theorem accepts_of_orTerm {terms : List SessionMatch} {units : List DbQueryUnit}
    (h : orTerm terms = some units) : ∀ t ∈ terms, t.field.accepts t.op = true := by
  unfold orTerm at h
  obtain ⟨-, -, h⟩ := Option.bind_eq_some_iff.mp h
  obtain ⟨m, hm, -⟩ := Option.bind_eq_some_iff.mp h
  exact (foldlM_addTerm hm).1

/-- The columns with the protocol and the server port are compared with a slice, the
other ones with conditions. -/
theorem admits_iff {terms : List SessionMatch} {units : List DbQueryUnit}
    (h : orTerm terms = some units) (T2 : Nat) (row : SessionRow) :
    ∃ m ports, m.proto_match = lastOn terms .protocol ∧ m.sport_match = lastOn terms .server_port ∧
      portBounds m = some ports ∧
      (Admits T2 units row ↔
        inSlice ((protocolBounds m).1 ++ ports.1) ((protocolBounds m).2 ++ ports.2)
            [row.protocol, row.server_port] ∧
          (∀ t ∈ terms, ∀ field, t.field = .text field → t.Compares T2 (row.text field)) ∧
          ∀ field, ∀ value ∈ (tagValues terms field).take (dealtOut terms),
            Occurs value (PrependT2 T2 (setText (row.set field)))) := by
  unfold orTerm at h
  obtain ⟨-, -, h⟩ := Option.bind_eq_some_iff.mp h
  obtain ⟨m, hm, h⟩ := Option.bind_eq_some_iff.mp h
  obtain ⟨ports, hports, h⟩ := Option.bind_eq_some_iff.mp h
  obtain rfl := Option.some.inj h
  obtain ⟨-, hproto, hsport, htags, hrest⟩ := foldlM_addTerm hm
  simp only [Option.or_none, List.nil_append] at hproto hsport htags hrest
  refine ⟨m, ports, hproto, hsport, hports, ?_⟩
  -- the predicates on tags go into vectors of their own, from which they are dealt out
  have hlength : ∀ field,
      (terms.flatMap (tagInfos field)).length = (tagValues terms field).length := by
    intro field
    obtain ⟨columnN, hindex, -⟩ := column_set field
    rw [flatMap_tagInfos terms hindex, List.length_map]
  have hmax : sessionMaxAttr (m.tags_vec .labels) (m.tags_vec .remote_labels)
      (m.tags_vec .custom_tags) (m.tags_vec .remote_custom_tags) = dealtOut terms := by
    simp only [sessionMaxAttr, dealtOut, htags, hlength]
  have htag : ∀ field, (∀ info ∈ (m.tags_vec field).take (dealtOut terms),
      (TagPredicate.index info).holds T2 (row.column T2) = true) ↔
        ∀ value ∈ (tagValues terms field).take (dealtOut terms),
          Occurs value (PrependT2 T2 (setText (row.set field))) := by
    intro field
    obtain ⟨columnN, hindex, hcolumn⟩ := column_set field
    rw [htags, flatMap_tagInfos terms hindex, ← List.map_take, List.forall_mem_map]
    exact forall₂_congr fun value _ => tagCondition_holds_iff T2 (hcolumn T2 row)
  -- each query has the other predicates and one of every vector
  have hconj := @conjunction_dealOut _ m.where_vec_session_rest
    [m.tags_vec .labels, m.tags_vec .remote_labels, m.tags_vec .custom_tags,
      m.tags_vec .remote_custom_tags] (dealtOut terms)
    fun info => (TagPredicate.index info).holds T2 (row.column T2) = true
  rw [populate_session_eq, hmax]
  have hsets : (∀ field, ∀ value ∈ (tagValues terms field).take (dealtOut terms),
      Occurs value (PrependT2 T2 (setText (row.set field)))) ↔
      ∀ vec ∈ [m.tags_vec .labels, m.tags_vec .remote_labels, m.tags_vec .custom_tags,
        m.tags_vec .remote_custom_tags], ∀ info ∈ vec.take (dealtOut terms),
          (TagPredicate.index info).holds T2 (row.column T2) = true := by
    simp only [← htag, List.forall_mem_cons, List.not_mem_nil, false_implies, implies_true,
      and_true]
    refine ⟨fun hall => ⟨hall _, hall _, hall _, hall _⟩, ?_⟩
    rintro ⟨h1, h2, h3, h4⟩ field
    cases field <;> assumption
  -- the other predicates are those on texts
  have hrests : (∀ t ∈ terms, ∀ field, t.field = .text field → t.Compares T2 (row.text field)) ↔
      ∀ info ∈ m.where_vec_session_rest,
        (TagPredicate.index info).holds T2 (row.column T2) = true := by
    simp only [hrest, List.mem_flatMap, forall_exists_index, and_imp, ← restInfos_hold_iff]
    exact ⟨fun hall info t ht hinfo => hall t ht info hinfo,
      fun hall t ht info hinfo => hall info t ht hinfo⟩
  rw [hsets, hrests, ← hconj, Admits, List.forall_mem_map]
  constructor
  · intro hall
    -- there is a query, and all have the same slice
    obtain ⟨where_vec, hmem⟩ := List.exists_mem_of_ne_nil _
      (@dealOut_ne_nil _ m.where_vec_session_rest
        [m.tags_vec .labels, m.tags_vec .remote_labels, m.tags_vec .custom_tags,
          m.tags_vec .remote_custom_tags] (dealtOut terms))
    exact ⟨(hall where_vec hmem).slice, fun where_vec hmem => (hall where_vec hmem).indexes⟩
  · rintro ⟨hslice, hindexes⟩ where_vec hmem
    exact ⟨hslice, hindexes where_vec hmem⟩

end TfAnalytics.QueryEngine.SessionWhere
