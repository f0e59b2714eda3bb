import TfAnalytics.QueryEngine.ObjectLog

/-!
# Query engine — the object a row of an object table reports

The `ObjectId` of a row is worked out from its object columns: of the names that begin
with the table's name the last one counts, whatever follows that name there, and what
is behind its first `:` is the id. An id that is empty is replaced by what is behind
the `:` of the first column.

So another object of the table, or one of a table whose name begins with that of the
table, is reported in place of the one that was found when it is stored behind it
(`ConfigObjectTable` and `ConfigObjectTableByUser` are two such tables). A query that
selects the `ObjectId` alone reports every object of the table.

Main results:

* `selectRow_object_id` — the `ObjectId` of a row.
* `reports_matched_iff` — when every row reports an object that was asked for.
-/

namespace TfAnalytics.QueryEngine.ObjectLog

open TfAnalytics.Lib TfAnalytics.Collector

-- ---------------------------------------------------------------------------
-- The id in the columns
-- ---------------------------------------------------------------------------

theorem behindColon_append {a : Text} (ha : ':' ∉ a) (b : Text) :
    behindColon (a ++ ':' :: b) = b := by
  have hall : ∀ c ∈ a, decide (c ≠ ':') = true :=
    fun c hc => decide_eq_true fun heq => ha (heq ▸ hc)
  rw [behindColon, if_pos (by simp), List.dropWhile_append_of_pos hall]
  simp

theorem behindColon_prependT2 (T2 : Nat) (name : Text) :
    behindColon (PrependT2 T2 name) = name :=
  behindColon_append (not_mem_digits (by decide) T2) name

/-- The object id after columns with these names. -/
def objectIdAfter (table : Text) (names : List Text) (object_id : Text) : Text :=
  names.foldl (fun object_id name => if table <+: name then behindColon name else object_id)
    object_id

/-- What `ObjectId` is given. -/
def reportedId (table : Text) (names : List Text) : Text :=
  if objectIdAfter table names [] = [] then (names.head?.map behindColon).getD []
  else objectIdAfter table names []

/-- The last name that begins with the table's name has this behind its first `:`. -/
def LastNamed (table : Text) (names : List Text) (id : Text) : Prop :=
  ∃ before name after, names = before ++ name :: after ∧ table <+: name ∧
    (∀ later ∈ after, ¬ table <+: later) ∧ behindColon name = id

/-- The row reports this id: it is that of the last name that begins with the table's
name, or that one's is empty and it is that of the first name. -/
def Shows (table : Text) (names : List Text) (id : Text) : Prop :=
  (LastNamed table names id ∧ id ≠ []) ∨
    (LastNamed table names [] ∧ ∃ first, names.head? = some first ∧ behindColon first = id)

theorem lastNamed_concat {table : Text} {names : List Text} {name id : Text} :
    LastNamed table (names ++ [name]) id ↔
      if table <+: name then behindColon name = id else LastNamed table names id := by
  constructor
  · rintro ⟨before, last, after, heq, hlast, hafter, hid⟩
    rcases List.eq_nil_or_concat after with rfl | ⟨after, x, rfl⟩
    · obtain ⟨-, hname⟩ := List.append_inj' heq rfl
      obtain rfl := (List.cons.inj hname).1
      rwa [if_pos hlast]
    · rw [List.concat_eq_append, ← List.cons_append, ← List.append_assoc] at heq
      obtain ⟨hnames, hname⟩ := List.append_inj' heq rfl
      obtain rfl := (List.cons.inj hname).1
      rw [if_neg (hafter name (by simp))]
      exact ⟨before, last, after, hnames, hlast, fun later hl => hafter later (by simp [hl]), hid⟩
  · intro h
    by_cases hname : table <+: name
    · rw [if_pos hname] at h
      exact ⟨names, name, [], rfl, hname, fun _ hl => absurd hl List.not_mem_nil, h⟩
    · rw [if_neg hname] at h
      obtain ⟨before, last, after, rfl, hlast, hafter, hid⟩ := h
      refine ⟨before, last, after ++ [name], by simp, hlast, fun later hl => ?_, hid⟩
      rcases List.mem_append.mp hl with hl | hl
      · exact hafter later hl
      · rwa [List.mem_singleton.mp hl]

theorem lastNamed_iff {table : Text} {names : List Text} {id : Text}
    (hnamed : ∃ name ∈ names, table <+: name) :
    LastNamed table names id ↔ objectIdAfter table names [] = id := by
  induction names using List.reverseRecOn with
  | nil =>
    obtain ⟨name, hname, -⟩ := hnamed
    exact absurd hname List.not_mem_nil
  | append_singleton names name ih =>
    rw [lastNamed_concat, objectIdAfter, List.foldl_append, List.foldl_cons, List.foldl_nil]
    by_cases hname : table <+: name
    · rw [if_pos hname, if_pos hname]
    · rw [if_neg hname, if_neg hname]
      refine ih ?_
      obtain ⟨other, hmem, hother⟩ := hnamed
      rcases List.mem_append.mp hmem with hmem | hmem
      · exact ⟨other, hmem, hother⟩
      · rw [List.mem_singleton.mp hmem] at hother
        exact absurd hother hname

theorem shows_iff {table : Text} {names : List Text} {id : Text}
    (hnamed : ∃ name ∈ names, table <+: name) :
    Shows table names id ↔ reportedId table names = id := by
  obtain ⟨first, hfirst⟩ : ∃ first, names.head? = some first := by
    obtain ⟨name, hname, -⟩ := hnamed
    exact Option.isSome_iff_exists.mp (List.isSome_head?.mpr (List.ne_nil_of_mem hname))
  rw [Shows, lastNamed_iff hnamed, lastNamed_iff hnamed, reportedId, hfirst]
  by_cases hempty : objectIdAfter table names [] = []
  · rw [if_pos hempty]
    constructor
    · rintro (⟨heq, hne⟩ | ⟨-, first', hfirst', hid⟩)
      · exact absurd (heq.symm.trans hempty) hne
      · rw [Option.some.inj hfirst']
        exact hid
    · exact fun hid => Or.inr ⟨hempty, first, rfl, hid⟩
  · rw [if_neg hempty]
    constructor
    · rintro (⟨heq, -⟩ | ⟨heq, -⟩)
      · exact heq
      · exact absurd heq hempty
    · exact fun heq => Or.inl ⟨heq, heq ▸ hempty⟩

-- ---------------------------------------------------------------------------
-- The columns of a row
-- ---------------------------------------------------------------------------

section

variable (table : Text)

/-- The value of a column does not depend on the id. -/
theorem column_value_eq (column : String × Bool) (value : DbDataValue)
    (object_id object_id' : Text) :
    (get_query_column_value table column value object_id).1 =
      (get_query_column_value table column value object_id').1 := by
  unfold get_query_column_value
  split
  · simp only
    split
    · split <;> rfl
    · rfl
  · rfl

/-- The entry of `col_res_map`. -/
def columnEntry (timestamp : Nat) (cv : (String × Bool) × DbDataValue) : String × DbDataValue :=
  (cv.1.1, if cv.1.1 = "MessageTS" then .number timestamp
    else (get_query_column_value table cv.1 cv.2 []).1)

theorem readColumns_eq (timestamp : Nat) (info : List DbDataValue) :
    readColumns table timestamp info =
      ((queryColumns.zip info).map (columnEntry table timestamp),
        (queryColumns.zip info).foldl
          (fun object_id cv => (get_query_column_value table cv.1 cv.2 object_id).2) []) := by
  have hgeneral : ∀ (l : List ((String × Bool) × DbDataValue))
      (entries : List (String × DbDataValue)) (object_id : Text),
      l.foldl (fun (x : List (String × DbDataValue) × Text) (y : (String × Bool) × DbDataValue) =>
        (x.1 ++ [(y.1.1, if y.1.1 = "MessageTS" then DbDataValue.number timestamp
          else (get_query_column_value table y.1 y.2 x.2).1)],
          (get_query_column_value table y.1 y.2 x.2).2)) (entries, object_id) =
        (entries ++ l.map (columnEntry table timestamp),
          l.foldl (fun object_id cv => (get_query_column_value table cv.1 cv.2 object_id).2)
            object_id) := by
    intro l
    induction l with
    | nil =>
      intro entries object_id
      simp
    | cons cv l ih =>
      intro entries object_id
      rw [List.foldl_cons, ih, List.map_cons, List.foldl_cons, columnEntry,
        column_value_eq table cv.1 cv.2 object_id []]
      simp
  exact hgeneral (queryColumns.zip info) [] []

/-- The columns before, with and behind the object names. -/
def frontColumns : List (String × Bool) := queryColumns.take 7
def objectTypeColumns : List (String × Bool) := (queryColumns.drop 7).take 6
def backColumns : List (String × Bool) := queryColumns.drop 13

theorem foldl_unchanged {α σ : Type} {f : σ → α → σ} {l : List α}
    (h : ∀ x ∈ l, ∀ s, f s x = s) (s : σ) : l.foldl f s = s := by
  induction l with
  | nil => rfl
  | cons x l ih =>
    rw [List.foldl_cons, h x List.mem_cons_self]
    exact ih fun y hy => h y (List.mem_cons_of_mem x hy)

theorem object_id_of_other {column : String × Bool}
    (hcolumn : ¬ "ObjectTypeName".toList <+: column.1.toList) (value : DbDataValue)
    (object_id : Text) : (get_query_column_value table column value object_id).2 = object_id := by
  unfold get_query_column_value
  split
  · rfl
  · rfl

theorem object_id_of_blank (column : String × Bool) (object_id : Text) :
    (get_query_column_value table column .blank object_id).2 = object_id := by
  rw [get_query_column_value, if_neg (by simp)]

/-- The step of an object column with a name. -/
theorem object_id_of_name {column : String × Bool} (hindex : column.2 = true)
    (hcolumn : "ObjectTypeName".toList <+: column.1.toList) (T2 : Nat) (name object_id : Text) :
    (get_query_column_value table column (.text (PrependT2 T2 name)) object_id).2 =
      if table <+: name then behindColon name else object_id := by
  rw [get_query_column_value, if_pos ⟨by simp, hindex⟩]
  simp only [DbDataValueToString, behindColon_prependT2, if_pos hcolumn]
  split <;> rfl

/-- Object columns, the first of them with names. -/
theorem foldl_objectColumns (T2 : Nat) (names : List Text) (blanks : Nat)
    {columns : List (String × Bool)}
    (hcolumns : ∀ c ∈ columns, c.2 = true ∧ "ObjectTypeName".toList <+: c.1.toList)
    (hlen : names.length ≤ columns.length) (object_id : Text) :
    (columns.zip (names.map (fun name => .text (PrependT2 T2 name)) ++
      List.replicate blanks .blank)).foldl
        (fun object_id cv => (get_query_column_value table cv.1 cv.2 object_id).2) object_id =
      objectIdAfter table names object_id := by
  induction names generalizing columns object_id with
  | nil =>
    refine foldl_unchanged (fun cv hcv object_id => ?_) object_id
    obtain ⟨-, hvalue⟩ := List.of_mem_zip hcv
    have hblank : cv.2 = .blank := List.eq_of_mem_replicate (by simpa using hvalue)
    rw [hblank, object_id_of_blank]
  | cons name names ih =>
    cases columns with
    | nil => exact absurd hlen (by simp)
    | cons c columns =>
      obtain ⟨⟨hindex, hcolumn⟩, hrest⟩ := List.forall_mem_cons.mp hcolumns
      rw [List.map_cons, List.cons_append, List.zip_cons_cons, List.foldl_cons,
        ih hrest (by simpa using hlen), object_id_of_name table hindex hcolumn]
      rfl

/-- The id in the columns of a message. -/
theorem foldl_info (m : Message) :
    (queryColumns.zip m.info).foldl
      (fun object_id cv => (get_query_column_value table cv.1 cv.2 object_id).2) [] =
        objectIdAfter table m.storedNames [] := by
  have hother : ∀ c ∈ frontColumns ++ backColumns, ¬ "ObjectTypeName".toList <+: c.1.toList := by
    decide +kernel
  have hobject : ∀ c ∈ objectTypeColumns, c.2 = true ∧ "ObjectTypeName".toList <+: c.1.toList := by
    decide +kernel
  have hsplit : queryColumns = frontColumns ++ (objectTypeColumns ++ backColumns) := by decide
  have hlen : m.storedNames.length ≤ objectTypeColumns.length := List.length_take_le _ _
  rw [hsplit, Message.info, List.zip_append (by rfl),
    List.zip_append (by rw [m.length_objectColumns]; rfl), List.foldl_append, List.foldl_append,
    foldl_unchanged (fun cv hcv object_id => ?_) [], Message.objectColumns,
    foldl_objectColumns table _ _ _ hobject hlen]
  · refine foldl_unchanged (fun cv hcv object_id => ?_) _
    exact object_id_of_other table
      (hother cv.1 (List.mem_append_right _ (List.of_mem_zip hcv).1)) _ _
  · exact object_id_of_other table
      (hother cv.1 (List.mem_append_left _ (List.of_mem_zip hcv).1)) _ _

/-- What `col_res_map` has for the column at a place. -/
theorem lookup_columns {V : Type} (f : (String × Bool) × DbDataValue → V)
    {columns : List (String × Bool)} {values : List DbDataValue} {i : Nat} {column : String × Bool}
    {value : DbDataValue} (hnodup : (columns.map Prod.fst).Nodup)
    (hcolumn : columns[i]? = some column) (hvalue : values[i]? = some value) :
    ((columns.zip values).map fun cv => (cv.1.1, f cv)).lookup column.1 =
      some (f (column, value)) := by
  induction columns generalizing values i with
  | nil => exact absurd hcolumn (by simp)
  | cons c columns ih =>
    cases values with
    | nil => exact absurd hvalue (by simp)
    | cons v values =>
      rw [List.map_cons, List.nodup_cons] at hnodup
      rw [List.zip_cons_cons, List.map_cons, List.lookup_cons]
      cases i with
      | zero =>
        obtain rfl : c = column := by simpa using hcolumn
        obtain rfl : v = value := by simpa using hvalue
        simp
      | succ i =>
        have hcolumn : columns[i]? = some column := by simpa using hcolumn
        have hvalue : values[i]? = some value := by simpa using hvalue
        have hne : ¬ column.1 = c.1 := by
          intro heq
          exact hnodup.1 (heq ▸ List.mem_map_of_mem (List.mem_of_getElem? hcolumn))
        rw [show (column.1 == c.1) = false from by simpa using hne]
        exact ih hnodup.2 hcolumn hvalue

theorem queryColumns_nodup : (queryColumns.map Prod.fst).Nodup := by decide +kernel

theorem lookup_info (timestamp : Nat) (m : Message) {i : Nat} {column : String × Bool}
    {value : DbDataValue} (hcolumn : queryColumns[i]? = some column)
    (hvalue : m.info[i]? = some value) :
    ((queryColumns.zip m.info).map (columnEntry table timestamp)).lookup column.1 =
      some (columnEntry table timestamp (column, value)).2 :=
  lookup_columns (fun cv => (columnEntry table timestamp cv).2) queryColumns_nodup hcolumn hvalue

theorem lookup_eq_none_iff (timestamp : Nat) (m : Message) (name : String) :
    ((queryColumns.zip m.info).map (columnEntry table timestamp)).lookup name = none ↔
      name ∉ queryColumns.map Prod.fst := by
  have hnames : ((queryColumns.zip m.info).map (columnEntry table timestamp)).map Prod.fst =
      queryColumns.map Prod.fst := by
    have hzip : (queryColumns.zip m.info).map Prod.fst = queryColumns :=
      List.map_fst_zip (by rw [m.length_info]; rfl)
    rw [List.map_map, ← hzip, List.map_map]
    simp only [hzip]
    rfl
  rw [← hnames, List.lookup_eq_none_iff]
  constructor
  · intro hall hmem
    obtain ⟨e, he, rfl⟩ := List.mem_map.mp hmem
    exact absurd (hall e he) (by simp)
  · intro hnot e he
    have : ¬ name = e.1 := fun heq => hnot (heq ▸ List.mem_map_of_mem he)
    simpa using this

end

-- ---------------------------------------------------------------------------
-- The row
-- ---------------------------------------------------------------------------

/-- The row is not left out: each field is a column or can be put together for this
type of message. -/
def Shown (select_column_fields : List String) (t : SandeshType) : Prop :=
  ∀ f ∈ select_column_fields, f ∈ queryColumns.map Prod.fst ∨
    ∃ log, t.log = some log ∧ (f = log ∨ f = "ObjectId" ∨ log ∈ select_column_fields)

/-- Fields inserted one after the other. -/
theorem foldlM_insert {fields : List String} {g : String → Option Text}
    {step : OrderedMap String Text → String → Option (OrderedMap String Text)}
    (hstep : ∀ cmap f, step cmap f = (g f).map fun v => cmap.insert f v)
    (cmap : OrderedMap String Text) :
    ((∃ row, fields.foldlM step cmap = some row) ↔ ∀ f ∈ fields, (g f).isSome) ∧
      ∀ row, fields.foldlM step cmap = some row → ∀ k,
        row.find? k = (cmap.find? k).or (if k ∈ fields then g k else none) := by
  induction fields generalizing cmap with
  | nil =>
    refine ⟨iff_of_true ⟨cmap, rfl⟩ fun f hf => absurd hf List.not_mem_nil, fun row hrow k => ?_⟩
    obtain rfl : cmap = row := Option.some.inj hrow
    simp
  | cons f fields ih =>
    rw [List.foldlM_cons, hstep]
    cases hg : g f with
    | none =>
      refine ⟨iff_of_false (fun ⟨row, hrow⟩ => absurd hrow (by simp)) fun hall => ?_,
        fun row hrow => absurd hrow (by simp)⟩
      have := hall f List.mem_cons_self
      rw [hg] at this
      exact absurd this (by simp)
    | some v =>
      obtain ⟨hiff, hfind⟩ := ih (cmap.insert f v)
      refine ⟨?_, fun row hrow k => ?_⟩
      · rw [List.forall_mem_cons, hg]
        exact hiff.trans ⟨fun h => ⟨rfl, h⟩, fun h => h.2⟩
      · rw [hfind row hrow k, OrderedMap.find?_insert]
        by_cases hk : k = f
        · subst hk
          rw [if_pos rfl, if_pos List.mem_cons_self, hg]
          cases cmap.find? k <;> rfl
        · rw [if_neg hk]
          simp [hk]

section

variable (sandeshType : Nat → SandeshType) (table : Text)

theorem info_behind (m : Message) (i : Nat) : m.info[13 + i]? =
    [m.ip.elim .blank .text, m.pid.elim .blank .number, .text m.category, .number m.level,
      .text m.node_type, .text m.instance_id, .number m.sequence_num, .number m.type,
      .text m.data][i]? := by
  have hlen := m.length_objectColumns
  rw [Message.info, List.getElem?_append_right (by simp; omega),
    List.getElem?_append_right (by simp; omega)]
  congr 1
  simp
  omega

theorem info_object (m : Message) : m.info[7]? = m.objectColumns[0]? := by
  have hlen := m.length_objectColumns
  rw [Message.info, List.getElem?_append_right (by simp),
    List.getElem?_append_left (by simp; omega)]
  rfl

/-- The text of the first object column. -/
theorem lookup_objectTypeName1 (m : Message) (timestamp : Nat) :
    ((((queryColumns.zip m.info).map (columnEntry table timestamp)).lookup "ObjectTypeName1").map
      DbDataValueToString).getD [] = (m.storedNames.head?.map behindColon).getD [] := by
  have hcolumn : queryColumns[7]? = some ("ObjectTypeName1", true) := by decide
  have hprefix : "ObjectTypeName".toList <+: "ObjectTypeName1".toList := by decide
  cases hnames : m.storedNames with
  | nil =>
    have hvalue : m.info[7]? = some .blank := by
      have hempty : m.object_names = [] := by
        rw [Message.storedNames] at hnames
        cases hobjects : m.object_names with
        | nil => rfl
        | cons name names =>
          exact absurd (hobjects ▸ hnames) (by simp [MSG_TABLE_MAX_OBJECTS_PER_MSG])
      rw [info_object, Message.objectColumns, hnames, hempty]
      rfl
    rw [lookup_info table timestamp m hcolumn hvalue]
    rfl
  | cons first names =>
    have hvalue : m.info[7]? = some (.text (PrependT2 m.T2 first)) := by
      rw [info_object, Message.objectColumns, hnames]
      rfl
    rw [lookup_info table timestamp m hcolumn hvalue]
    have hentry : (columnEntry table timestamp
        (("ObjectTypeName1", true), .text (PrependT2 m.T2 first))).2 =
          .text (behindColon first) := by
      rw [columnEntry, if_neg (by simp), get_query_column_value, if_pos ⟨by simp, rfl⟩]
      simp only [DbDataValueToString, behindColon_prependT2, if_pos hprefix]
      split <;> rfl
    rw [hentry]
    rfl

/-- The value a field is given. -/
def fieldValue (select_column_fields : List String) (m : Message) (timestamp : Nat)
    (sel_field : String) : Option Text :=
  match ((queryColumns.zip m.info).map (columnEntry table timestamp)).lookup sel_field with
  | some value => some (DbDataValueToString value)
  | none =>
    match (sandeshType m.type).log with
    | none => none
    | some log =>
      if sel_field = log then some m.data
      else if sel_field = "ObjectId" then some (reportedId table m.storedNames)
      else if log ∈ select_column_fields then some []
      else none

theorem selectField_eq (select_column_fields : List String) (m : Message) (timestamp : Nat)
    (cmap : OrderedMap String Text) (f : String) :
    selectField sandeshType select_column_fields
      ((queryColumns.zip m.info).map (columnEntry table timestamp)) (reportedId table m.storedNames)
      cmap f =
        (fieldValue sandeshType table select_column_fields m timestamp f).map
          fun v => cmap.insert f v := by
  have htype : ((queryColumns.zip m.info).map (columnEntry table timestamp)).lookup "Type" =
      some (.number m.type) :=
    lookup_info table timestamp m (by decide : queryColumns[20]? = some ("Type", false))
      (info_behind m 7)
  have hdata : ((queryColumns.zip m.info).map (columnEntry table timestamp)).lookup "Xmlmessage" =
      some (.text m.data) :=
    lookup_info table timestamp m (by decide : queryColumns[21]? = some ("Xmlmessage", false))
      (info_behind m 8)
  rw [selectField, fieldValue]
  cases ((queryColumns.zip m.info).map (columnEntry table timestamp)).lookup f with
  | some value => rfl
  | none =>
    simp only [process_object_query_specific_select_params, htype, hdata]
    cases (sandeshType m.type).log with
    | none => rfl
    | some log =>
      simp only
      split
      · rfl
      · split
        · rfl
        · split <;> rfl

theorem selectRow_eq (select_column_fields : List String) (m : Message) (timestamp : Nat) :
    selectRow sandeshType table select_column_fields ⟨timestamp, m.info⟩ =
      select_column_fields.foldlM (selectField sandeshType select_column_fields
        ((queryColumns.zip m.info).map (columnEntry table timestamp))
        (reportedId table m.storedNames)) .empty := by
  have hid : (if (objectIdAfter table m.storedNames []).isEmpty = true then
      ((((queryColumns.zip m.info).map (columnEntry table timestamp)).lookup
        "ObjectTypeName1").map DbDataValueToString).getD []
      else objectIdAfter table m.storedNames []) = reportedId table m.storedNames := by
    rw [lookup_objectTypeName1, reportedId]
    simp only [List.isEmpty_iff]
  rw [selectRow, readColumns_eq, foldl_info]
  simp only [hid]

theorem log_cases {t : SandeshType} {log : String} (h : t.log = some log) :
    log = "SystemLog" ∨ log = "ObjectLog" := by
  cases t with
  | SYSTEM => exact Or.inl (Option.some.inj h).symm
  | OBJECT | UVE | ALARM => exact Or.inr (Option.some.inj h).symm
  | other => exact absurd h (by simp [SandeshType.log])

theorem fieldValue_isSome_iff (select_column_fields : List String) (m : Message) (timestamp : Nat)
    (f : String) :
    (fieldValue sandeshType table select_column_fields m timestamp f).isSome ↔
      f ∈ queryColumns.map Prod.fst ∨ ∃ log, (sandeshType m.type).log = some log ∧
        (f = log ∨ f = "ObjectId" ∨ log ∈ select_column_fields) := by
  have hlookup := lookup_eq_none_iff table timestamp m f
  rw [fieldValue]
  cases hfound : ((queryColumns.zip m.info).map (columnEntry table timestamp)).lookup f with
  | some value =>
    refine iff_of_true rfl (Or.inl ?_)
    by_contra hnot
    rw [hlookup.mpr hnot] at hfound
    exact absurd hfound (by simp)
  | none =>
    have hnot := hlookup.mp hfound
    cases hlog : (sandeshType m.type).log with
    | none => simp [hnot]
    | some log =>
      simp only [hnot, false_or, Option.some.injEq, exists_eq_left']
      by_cases h₁ : f = log
      · simp [h₁]
      · by_cases h₂ : f = "ObjectId"
        · rw [if_neg h₁, if_pos h₂]
          simp [h₂]
        · rw [if_neg h₁, if_neg h₂]
          by_cases h₃ : log ∈ select_column_fields
          · simp [h₃]
          · simp [h₁, h₂, h₃]

theorem fieldValue_object_id {select_column_fields : List String} {m : Message} {timestamp : Nat}
    (h : (fieldValue sandeshType table select_column_fields m timestamp "ObjectId").isSome) :
    fieldValue sandeshType table select_column_fields m timestamp "ObjectId" =
      some (reportedId table m.storedNames) := by
  have hnot : "ObjectId" ∉ queryColumns.map Prod.fst := by decide +kernel
  have hlookup := (lookup_eq_none_iff table timestamp m "ObjectId").mpr hnot
  rw [fieldValue, hlookup] at h ⊢
  cases hlog : (sandeshType m.type).log with
  | none =>
    rw [hlog] at h
    exact absurd h (by simp)
  | some log =>
    have hne : ¬ "ObjectId" = log := by
      rcases log_cases hlog with rfl | rfl
      · decide
      · decide
    simp only [if_neg hne, if_true]

/-- The `ObjectId` of a row, and which rows there are. -/
theorem selectRow_object_id (select_column_fields : List String) (m : Message) (timestamp : Nat) :
    ((∃ row, selectRow sandeshType table select_column_fields ⟨timestamp, m.info⟩ = some row) ↔
        Shown select_column_fields (sandeshType m.type)) ∧
      ∀ row, selectRow sandeshType table select_column_fields ⟨timestamp, m.info⟩ = some row →
        row.find? "ObjectId" =
          if "ObjectId" ∈ select_column_fields then some (reportedId table m.storedNames)
          else none := by
  obtain ⟨hiff, hfind⟩ := @foldlM_insert select_column_fields _ _
    (selectField_eq sandeshType table select_column_fields m timestamp) .empty
  have hshown := forall₂_congr fun f (_ : f ∈ select_column_fields) =>
    fieldValue_isSome_iff sandeshType table select_column_fields m timestamp f
  rw [selectRow_eq]
  refine ⟨hiff.trans hshown, fun row hrow => ?_⟩
  rw [hfind row hrow "ObjectId", OrderedMap.find?_empty, Option.none_or]
  by_cases hmem : "ObjectId" ∈ select_column_fields
  · rw [if_pos hmem, if_pos hmem]
    exact fieldValue_object_id sandeshType table (hiff.mp ⟨row, hrow⟩ "ObjectId" hmem)
  · rw [if_neg hmem, if_neg hmem]

end

-- ---------------------------------------------------------------------------
-- The object that is reported
-- ---------------------------------------------------------------------------

section

variable (sandeshType : Nat → SandeshType) (q : ObjectQuery) (messages : List Message)
  (records : List ObjectRecord)

/-- Each row reports the object that was asked for. -/
def ReportsAsked (X : Text) : Prop :=
  ∀ rows, q.rows sandeshType messages records = some rows → ∀ row ∈ rows,
    ∀ id, row.find? "ObjectId" = some id → id = X

/-- Each row of a message reports an object of exactly the table, one of the message. -/
def ReportsTable : Prop :=
  ∀ units, whereResult messages q.from_time q.end_time q.table.toList q.terms = some units →
    ∀ m ∈ messages, ⟨m.resultTime, m.info⟩ ∈ units → ∀ row,
      selectRow sandeshType q.table.toList q.select_column_fields ⟨m.resultTime, m.info⟩ =
        some row → ∀ id, row.find? "ObjectId" = some id → q.table.toList ++ ':' :: id ∈ m.storedNames

/-- Each row reports an object that was recorded for exactly the table. -/
def ReportsRecorded : Prop :=
  ∀ rows, q.rows sandeshType messages records = some rows → ∀ row ∈ rows,
    ∀ id, row.find? "ObjectId" = some id →
      ∃ r ∈ records, r.table = q.table ∧ r.objectkey.toList = id

variable {sandeshType q messages records} {asked : Option Text}

theorem Found.named {m : Message} (h : Found q asked m) :
    ∃ name ∈ m.storedNames, q.table.toList <+: name := by
  obtain ⟨name, hmem, hname⟩ := h.object
  refine ⟨name, hmem, ?_⟩
  cases asked with
  | some X =>
    rw [show name = q.table.toList ++ ':' :: X from hname]
    exact List.prefix_append _ _
  | none => exact (List.prefix_append _ _).trans hname

/-- The names can be read off the columns. -/
theorem storedNames_eq (m : Message) : m.storedNames = ((m.info.drop 7).take 6).filterMap
    fun value => match value with
      | .text s => some (behindColon s)
      | _ => none := by
  have hlen := m.length_objectColumns
  have hdrop : (m.info.drop 7).take 6 = m.objectColumns := by
    rw [Message.info, List.drop_left' (by rfl), List.take_left' hlen]
  rw [hdrop, Message.objectColumns, List.filterMap_append, List.filterMap_map]
  have hblanks : ∀ n, (List.replicate n DbDataValue.blank).filterMap (fun value => match value with
      | .text s => some (behindColon s)
      | _ => none) = [] := by
    intro n
    rw [List.filterMap_eq_nil_iff]
    intro value hvalue
    rw [List.eq_of_mem_replicate hvalue]
  rw [hblanks, List.append_nil]
  symm
  refine (List.filterMap_congr fun name _ => ?_).trans List.filterMap_some
  exact congrArg some (behindColon_prependT2 _ _)

/-- The rows of a query that does not select the `ObjectId` alone. -/
theorem mem_rows_iff (htable : q.table ∈ objectTables) (hasks : Asks q.terms asked)
    (hselect : ObjectIdQuery q.select_column_fields = false) (row : OrderedMap String Text) :
    (∃ rows, q.rows sandeshType messages records = some rows ∧ row ∈ rows) ↔
      ∃ m ∈ messages, Found q asked m ∧ selectRow sandeshType q.table.toList q.select_column_fields
        ⟨m.resultTime, m.info⟩ = some row := by
  have hmem := mem_whereResult_iff htable hasks messages
  constructor
  · rintro ⟨rows, hrows, hrow⟩
    obtain ⟨vecs, -, hrows⟩ := Option.bind_eq_some_iff.mp hrows
    rw [hselect, if_neg (by simp)] at hrows
    obtain ⟨units, hunits, rfl⟩ := Option.map_eq_some_iff.mp hrows
    obtain ⟨unit, hunit, hselected⟩ := List.mem_filterMap.mp hrow
    obtain ⟨m, hm, hfound, rfl⟩ := (hmem unit).mp ⟨units, hunits, hunit⟩
    exact ⟨m, hm, hfound, hselected⟩
  · rintro ⟨m, hm, hfound, hselected⟩
    obtain ⟨units, hunits, hunit⟩ := (hmem _).mpr ⟨m, hm, hfound, rfl⟩
    obtain ⟨vecs, hvecs, -⟩ := Option.bind_eq_some_iff.mp hunits
    refine ⟨_, ?_, List.mem_filterMap.mpr ⟨_, hunit, hselected⟩⟩
    rw [ObjectQuery.rows, hvecs]
    show (if ObjectIdQuery q.select_column_fields = true then _ else _) = _
    rw [hselect, if_neg (by simp), hunits]
    rfl

/-- The rows of a query that does. -/
theorem mem_id_rows_iff (hasks : Asks q.terms asked)
    (haccepted : ∀ t ∈ q.terms, (termInfo q.table.toList t).isSome)
    (hselect : ObjectIdQuery q.select_column_fields = true) (id : Text) :
    (∃ rows, q.rows sandeshType messages records = some rows ∧ ∃ row ∈ rows,
      row.find? "ObjectId" = some id) ↔
      ∃ r, Kept records r ∧ r.table = q.table ∧ Fetched q.from_time q.end_time r.timestamp ∧
        r.objectkey.toList = id := by
  obtain ⟨before, after, -, hvecs⟩ := whereVecs_eq hasks haccepted
  obtain ⟨values, hvalues, -, hmem⟩ :=
    mem_process_object_values records q.table q.from_time q.end_time
  have hrows : q.rows sandeshType messages records =
      some (values.map fun v => OrderedMap.empty.insert "ObjectId" v.toList) := by
    rw [ObjectQuery.rows, hvecs]
    show (if ObjectIdQuery q.select_column_fields = true then _ else _) = _
    rw [hselect, if_pos rfl, hvalues]
    rfl
  have hfind : ∀ v : String, ((OrderedMap.empty : OrderedMap String Text).insert "ObjectId"
      v.toList).find? "ObjectId" = some v.toList := by
    intro v
    rw [OrderedMap.find?_insert, if_pos rfl]
    rfl
  constructor
  · rintro ⟨rows, heq, row, hrow, hid⟩
    obtain rfl := Option.some.inj (hrows.symm.trans heq)
    obtain ⟨v, hv, rfl⟩ := List.mem_map.mp hrow
    obtain ⟨r, hkept, htable, rfl, hfetched⟩ := (hmem v).mp hv
    exact ⟨r, hkept, htable, hfetched, Option.some.inj ((hfind _).symm.trans hid)⟩
  · rintro ⟨r, hkept, htable, hfetched, rfl⟩
    exact ⟨_, hrows, _, List.mem_map_of_mem ((hmem _).mpr ⟨r, hkept, htable, rfl, hfetched⟩),
      hfind _⟩

theorem reportsAsked_iff (htable : q.table ∈ objectTables) {X : Text}
    (hasks : Asks q.terms (some X))
    (hselect : ObjectIdQuery q.select_column_fields = false) :
    ReportsAsked sandeshType q messages records X ↔
      ∀ m ∈ messages, Found q (some X) m → Shown q.select_column_fields (sandeshType m.type) →
        "ObjectId" ∈ q.select_column_fields → Shows q.table.toList m.storedNames X := by
  constructor
  · intro hreports m hm hfound hshown hid
    obtain ⟨hiff, hfind⟩ := selectRow_object_id sandeshType q.table.toList q.select_column_fields m
      m.resultTime
    obtain ⟨row, hrow⟩ := hiff.mpr hshown
    obtain ⟨rows, hrows, hmem⟩ := (@mem_rows_iff sandeshType q messages records _ htable hasks
      hselect row).mpr ⟨m, hm, hfound, hrow⟩
    rw [shows_iff hfound.named]
    refine hreports rows hrows row hmem _ ?_
    rw [hfind row hrow, if_pos hid]
  · intro hshows rows hrows row hmem id hid
    obtain ⟨m, hm, hfound, hrow⟩ := (mem_rows_iff htable hasks hselect row).mp ⟨rows, hrows, hmem⟩
    obtain ⟨hiff, hfind⟩ := selectRow_object_id sandeshType q.table.toList q.select_column_fields m
      m.resultTime
    rw [hfind row hrow] at hid
    by_cases hselected : "ObjectId" ∈ q.select_column_fields
    · rw [if_pos hselected] at hid
      have hX := (shows_iff hfound.named).mp (hshows m hm hfound (hiff.mp ⟨row, hrow⟩) hselected)
      exact (Option.some.inj hid).symm.trans hX
    · rw [if_neg hselected] at hid
      exact absurd hid (by simp)

theorem reportsTable_iff (htable : q.table ∈ objectTables) (hasks : Asks q.terms none) :
    ReportsTable sandeshType q messages ↔
      ∀ m ∈ messages, Found q none m → Shown q.select_column_fields (sandeshType m.type) →
        "ObjectId" ∈ q.select_column_fields →
          ∃ id, Shows q.table.toList m.storedNames id ∧
            q.table.toList ++ ':' :: id ∈ m.storedNames := by
  have hmem := mem_whereResult_iff htable hasks messages
  constructor
  · intro hreports m hm hfound hshown hid
    obtain ⟨hiff, hfind⟩ := selectRow_object_id sandeshType q.table.toList q.select_column_fields m
      m.resultTime
    obtain ⟨row, hrow⟩ := hiff.mpr hshown
    obtain ⟨units, hunits, hunit⟩ := (hmem _).mpr ⟨m, hm, hfound, rfl⟩
    refine ⟨_, (shows_iff hfound.named).mpr rfl, ?_⟩
    refine hreports units hunits m hm hunit row hrow _ ?_
    rw [hfind row hrow, if_pos hid]
  · intro hshows units hunits m hm hunit row hrow id hid
    obtain ⟨m', hm', hfound, heq⟩ := (hmem _).mp ⟨units, hunits, hunit⟩
    -- another message with the same row has the same names
    have hinfo : m.info = m'.info := congrArg QueryResultUnit.info heq
    have hnames : m.storedNames = m'.storedNames := by
      rw [storedNames_eq, storedNames_eq, hinfo]
    rw [hinfo] at hrow
    obtain ⟨hiff, hfind⟩ := selectRow_object_id sandeshType q.table.toList q.select_column_fields m'
      m.resultTime
    rw [hfind row hrow] at hid
    by_cases hselected : "ObjectId" ∈ q.select_column_fields
    · rw [if_pos hselected] at hid
      obtain ⟨id', hid', hobject⟩ := hshows m' hm' hfound (hiff.mp ⟨row, hrow⟩) hselected
      rw [shows_iff hfound.named] at hid'
      rw [hnames, ← Option.some.inj hid, hid']
      exact hobject
    · rw [if_neg hselected] at hid
      exact absurd hid (by simp)

end

/-- A query that selects more than the `ObjectId` reports what was asked for if and only
if every message that it finds and shows has, as the last of its names that begin with
the table's, the object asked for, or one of exactly the table. A query that selects
the `ObjectId` alone reports the ids of the table, all of them. -/
theorem reports_matched_iff (sandeshType : Nat → SandeshType) (q : ObjectQuery)
    (messages : List Message) (records : List ObjectRecord) (htable : q.table ∈ objectTables) :
    (ObjectIdQuery q.select_column_fields = false →
      (∀ X, Asks q.terms (some X) → (ReportsAsked sandeshType q messages records X ↔
        ∀ m ∈ messages, Found q (some X) m → Shown q.select_column_fields (sandeshType m.type) →
          "ObjectId" ∈ q.select_column_fields → Shows q.table.toList m.storedNames X)) ∧
      (Asks q.terms none → (ReportsTable sandeshType q messages ↔
        ∀ m ∈ messages, Found q none m → Shown q.select_column_fields (sandeshType m.type) →
          "ObjectId" ∈ q.select_column_fields →
            ∃ id, Shows q.table.toList m.storedNames id ∧
              q.table.toList ++ ':' :: id ∈ m.storedNames))) ∧
    (ObjectIdQuery q.select_column_fields = true →
      (∀ t ∈ q.terms, (termInfo q.table.toList t).isSome) →
        (∀ X, Asks q.terms (some X) → (ReportsAsked sandeshType q messages records X ↔
          ∀ r, Kept records r → r.table = q.table → Fetched q.from_time q.end_time r.timestamp →
            r.objectkey.toList = X)) ∧
        (Asks q.terms none → ReportsRecorded sandeshType q messages records)) := by
  refine ⟨fun hselect => ⟨fun X hasks => reportsAsked_iff htable hasks hselect,
    fun hasks => reportsTable_iff htable hasks⟩, fun hselect haccepted => ⟨fun X hasks => ?_,
    fun hasks rows hrows row hrow id hid => ?_⟩⟩
  · have hmem := @mem_id_rows_iff sandeshType q messages records _ hasks haccepted hselect
    constructor
    · intro hreports r hkept hr hfetched
      obtain ⟨rows, hrows, row, hrow, hid⟩ := (hmem _).mpr ⟨r, hkept, hr, hfetched, rfl⟩
      exact hreports rows hrows row hrow _ hid
    · intro hall rows hrows row hrow id hid
      obtain ⟨r, hkept, hr, hfetched, rfl⟩ := (hmem id).mp ⟨rows, hrows, row, hrow, hid⟩
      exact hall r hkept hr hfetched
  · obtain ⟨r, hkept, hr, -, rfl⟩ :=
      (mem_id_rows_iff hasks haccepted hselect id).mp ⟨rows, hrows, row, hrow, hid⟩
    exact ⟨r, hkept.mem, hr, rfl⟩

def sampleMessage (object_names : List Text) : Message where
  timestamp := 1000000
  partition_no := 3
  unm := "u".toList
  source := "host".toList
  message_type := "VncApiConfigLog".toList
  module := "api".toList
  object_names := object_names
  ip := none
  pid := some 1
  category := []
  level := 7
  node_type := "Config".toList
  instance_id := "0".toList
  sequence_num := 1
  type := 2
  data := "<data/>".toList

/-- `ObjectId = vn1`. -/
def sampleQuery (table : String) : ObjectQuery where
  table := table
  terms := [⟨"ObjectId", .EQUAL, "vn1".toList⟩]
  select_column_fields := ["MessageTS", "ObjectId"]
  from_time := 0
  end_time := 2000000

/-- Messages with several objects, of the table and of another one. -/
def sampleLog : List Message :=
  [sampleMessage ["ObjectVNTable:vn2".toList, "ObjectVMTable:vm1".toList, "ObjectVNTable:vn1".toList],
    sampleMessage ["ObjectVNTable:vn2".toList],
    sampleMessage ["ObjectVNTable:vn1".toList, "ObjectVMTable:vm2".toList]]

def sampleRecords : List ObjectRecord :=
  [⟨"ObjectVNTable", "vn1", 1000000⟩, ⟨"ObjectVMTable", "vm1", 1000001⟩]

/-- The network that was asked for, the networks of all messages, and the ids
of the table. -/
theorem reports_matched_sample :
    ReportsAsked (fun _ => .OBJECT) (sampleQuery "ObjectVNTable") sampleLog [] "vn1".toList ∧
      ReportsTable (fun _ => .OBJECT) { sampleQuery "ObjectVNTable" with terms := [] } sampleLog ∧
      ReportsAsked (fun _ => .OBJECT)
        { sampleQuery "ObjectVNTable" with select_column_fields := ["ObjectId"] } [] sampleRecords
        "vn1".toList := by
  have hasks : Asks [⟨"ObjectId", .EQUAL, "vn1".toList⟩] (some "vn1".toList) :=
    ⟨[], [], rfl, fun _ ht => absurd ht List.not_mem_nil⟩
  -- the last network of each message
  have hlast : LastNamed "ObjectVNTable".toList
      ["ObjectVNTable:vn2".toList, "ObjectVMTable:vm1".toList, "ObjectVNTable:vn1".toList]
      "vn1".toList :=
    ⟨[_, _], _, [], rfl, by decide, fun _ hl => absurd hl List.not_mem_nil, by decide⟩
  have hother : LastNamed "ObjectVNTable".toList ["ObjectVNTable:vn2".toList] "vn2".toList :=
    ⟨[], _, [], rfl, by decide, fun _ hl => absurd hl List.not_mem_nil, by decide⟩
  have hfirst : LastNamed "ObjectVNTable".toList
      ["ObjectVNTable:vn1".toList, "ObjectVMTable:vm2".toList] "vn1".toList := by
    refine ⟨[], _, [_], rfl, by decide, fun name hname => ?_, by decide⟩
    obtain rfl := List.mem_singleton.mp hname
    decide
  refine ⟨?_, ?_, ?_⟩
  · refine (((reports_matched_iff (fun _ => .OBJECT) (sampleQuery "ObjectVNTable") sampleLog []
      (by decide)).1 (by decide)).1 "vn1".toList hasks).mpr fun m hm hfound _ _ => ?_
    rcases List.mem_cons.mp hm with rfl | hm
    · exact Or.inl ⟨hlast, by decide⟩
    rcases List.mem_cons.mp hm with rfl | hm
    · obtain ⟨name, hmem, hname⟩ := hfound.object
      obtain rfl := List.mem_singleton.mp hmem
      exact absurd (show "ObjectVNTable:vn2".toList = "ObjectVNTable".toList ++ ':' :: "vn1".toList
        from hname) (by decide)
    · obtain rfl := List.mem_singleton.mp hm
      exact Or.inl ⟨hfirst, by decide⟩
  · refine (((reports_matched_iff (fun _ => .OBJECT)
      { sampleQuery "ObjectVNTable" with terms := [] } sampleLog [] (by decide)).1 (by decide)).2
        fun _ ht => absurd ht List.not_mem_nil).mpr fun m hm _ _ _ => ?_
    rcases List.mem_cons.mp hm with rfl | hm
    · exact ⟨_, Or.inl ⟨hlast, by decide⟩, by decide⟩
    rcases List.mem_cons.mp hm with rfl | hm
    · exact ⟨_, Or.inl ⟨hother, by decide⟩, by decide⟩
    · obtain rfl := List.mem_singleton.mp hm
      exact ⟨_, Or.inl ⟨hfirst, by decide⟩, by decide⟩
  · refine (((reports_matched_iff (fun _ => .OBJECT)
      { sampleQuery "ObjectVNTable" with select_column_fields := ["ObjectId"] } [] sampleRecords
      (by decide)).2 (by decide) ?_).1 "vn1".toList hasks).mpr fun r hkept hr _ => ?_
    · intro t ht
      obtain rfl := List.mem_singleton.mp ht
      decide
    · rcases List.mem_cons.mp hkept.mem with rfl | hmem
      · rfl
      · obtain rfl := List.mem_singleton.mp hmem
        exact absurd hr (by decide)

theorem not_reportsAsked_of_row {sandeshType : Nat → SandeshType} {q : ObjectQuery}
    {messages : List Message} {records : List ObjectRecord} {id X : Text}
    (hrun : (q.rows sandeshType messages records).map (·.map (·.find? "ObjectId")) = some [some id])
    (hne : id ≠ X) : ¬ ReportsAsked sandeshType q messages records X := by
  intro hreports
  obtain ⟨rows, hrows, hids⟩ := Option.map_eq_some_iff.mp hrun
  obtain ⟨row, hrow, hid⟩ : ∃ row ∈ rows, row.find? "ObjectId" = some id :=
    List.mem_map.mp (hids ▸ List.mem_singleton_self _)
  exact hne (hreports rows hrows row hrow id hid)

/-- Of two networks the other one is reported, and of a configuration object the user. -/
theorem not_reportsAsked :
    ¬ ReportsAsked (fun _ => .OBJECT) (sampleQuery "ObjectVNTable")
        [sampleMessage ["ObjectVNTable:vn1".toList, "ObjectVNTable:vn2".toList]] [] "vn1".toList ∧
      ¬ ReportsAsked (fun _ => .OBJECT) (sampleQuery "ConfigObjectTable")
        [sampleMessage ["ConfigObjectTable:vn1".toList, "ConfigObjectTableByUser:admin".toList]] []
        "vn1".toList := by
  constructor
  · exact @not_reportsAsked_of_row _ _ _ _ "vn2".toList _ (by decide +kernel) (by decide)
  · exact @not_reportsAsked_of_row _ _ _ _ "admin".toList _ (by decide +kernel) (by decide)

end TfAnalytics.QueryEngine.ObjectLog
