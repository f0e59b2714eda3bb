import TfAnalytics.Collector.StatTable
import TfAnalytics.Lib.Delimited
import TfAnalytics.Lib.Like

/-!
# Query engine — WHERE terms on the tags of stats samples

The constructor of `WhereQuery` (where_query.cc) turns a term of a stat query into a
range of the name column or into a condition on an index column:
`STATS_SOURCE_FIELD` and names that end in `__key` or `proxy` are compared with a
column of their own, all others are looked for with `LIKE` in the column that the
hash of the name gives. `DbQueryUnit::PipelineCb` puts the time row in front of a
value that does not start with `%`. The suffix of a term has a branch of its own.

Here these conditions meet what the collector stored (`Collector.StatTable`).

* `termPredicate_eq`: the condition for a term, for every name and value;
* `tag_predicate_iff`: exactly when a term finds a sample if and only if it has the tag;
* `looksLike_iff_affix`: which other tags are mistaken for one in a tags column;
* `longer_value_found`: a value is also found as the beginning of a longer one.
-/

namespace TfAnalytics.QueryEngine

open TfAnalytics.Lib TfAnalytics.Collector

-- ---------------------------------------------------------------------------
-- populate_where_vec
-- ---------------------------------------------------------------------------

/-- `GenDb::Op`. -/
inductive DbOp where
  | EQ | LIKE
  deriving DecidableEq

structure WhereIndexInfo where
  column : String
  db_op : DbOp
  value : Text

/-- `STATS_TAGS_FIELD + integerToString(idx)`. -/
def tagsField (idx : Nat) : Text := "tags".toList ++ Nat.toDigits 10 idx

/-- `index_column_to_column` of the stats table. -/
def index_column_to_column : List (Text × String) :=
  [(STATS_NAME_FIELD, "column3"), (STATS_SOURCE_FIELD, "column4"), (STATS_KEY_FIELD, "column5"),
   (STATS_PROXY_FIELD, "column5"), (tagsField 0, "column7"), (tagsField 1, "column8"),
   (tagsField 2, "column9"), (tagsField 3, "column10")]

def query_column_to_cass_column (query_column : Text) : Option String :=
  (index_column_to_column.find? fun e => e.1 = query_column).map Prod.snd

/-- `none` is the return value `false`, an invalid argument. -/
def populate_where_vec (query_col : Text) (db_op : DbOp) (value : Text) :
    Option (List WhereIndexInfo) :=
  (query_column_to_cass_column query_col).map fun columnN =>
    let val := match db_op with
      | .LIKE => value ++ ['%']
      | .EQ => value
    if val = ['%'] then [] else [⟨columnN, db_op, val⟩]

-- ---------------------------------------------------------------------------
-- The terms of a stat query
-- ---------------------------------------------------------------------------

/-- What a term adds to the query: a range of the name column, or a condition on
an index column. -/
inductive TagPredicate where
  | name (value : Text)
  | index (info : WhereIndexInfo)

/-- The prefix of a term with `EQUAL`, or the whole of it; `pname` is given as it is
afterwards. -/
def prefixTerm (pname pval : Text) : Option (Text × List TagPredicate) :=
  if pname = STATS_NAME_FIELD then some (pname, [.name pval])
  else if pname = STATS_SOURCE_FIELD ∨ ends_with pname STATS_KEY_FIELD = true ∨
      ends_with pname STATS_PROXY_FIELD = true then
    let pname := if ends_with pname STATS_KEY_FIELD then STATS_KEY_FIELD else pname
    let pname := if ends_with pname STATS_PROXY_FIELD then STATS_PROXY_FIELD else pname
    (populate_where_vec pname .EQ pval).map fun infos => (pname, infos.map .index)
  else
    (populate_where_vec (tagsField (tagIndex pname)) .LIKE ('%' :: tagText pname pval)).map
      fun infos => (pname, infos.map .index)

/-- The suffix of a term with `EQUAL`. The test for the key and proxy columns is on
the name of the prefix. -/
def suffixTerm (pname sname sval : Text) : Option (List TagPredicate) :=
  if sname = STATS_NAME_FIELD then some [.name sval]
  else if sname = STATS_SOURCE_FIELD ∨ ends_with pname STATS_KEY_FIELD = true ∨
      ends_with pname STATS_PROXY_FIELD = true then
    (populate_where_vec sname .EQ sval).map fun infos => infos.map .index
  else
    (populate_where_vec (tagsField (tagIndex sname)) .LIKE ('%' :: tagText sname sval)).map
      fun infos => infos.map .index

/-- A term by itself, or behind a prefix. -/
inductive Usage where
  | plain
  | suffix (pname pval : Text)

/-- What is built for a term; `none` when the query is refused. -/
def termPredicate (usage : Usage) (n v : Text) : Option (List TagPredicate) :=
  match usage with
  | .plain => (prefixTerm n v).map Prod.snd
  | .suffix pname pval => (prefixTerm pname pval).bind fun r => suffixTerm r.1 n v

/-- `DbQueryUnit::PipelineCb` on one value. -/
def PipelineCb (T2 : Nat) (value : Text) : Text :=
  if value.head? = some '%' then value else PrependT2 T2 value

def TagPredicate.column : TagPredicate → String
  | .name _ => "column1"
  | .index info => info.column

/-- The answer of the database for a row of this `T2`. -/
def TagPredicate.holds (T2 : Nat) (row : String → Option Text) : TagPredicate → Bool
  | .name value => row "column1" = some value
  | .index info =>
    match row info.column, info.db_op with
    | none, _ => false
    | some text, .EQ => text = PipelineCb T2 info.value
    | some text, .LIKE => like (PipelineCb T2 info.value) text

-- ---------------------------------------------------------------------------
-- Where a term looks
-- ---------------------------------------------------------------------------

/-- How a term looks for a tag: in the name column, for the value as the whole
content of a column, or for `n=v` in the text of a tags column. -/
inductive Target where
  | name
  | exact (column : TagColumn)
  | contains (i : Fin 4)

def Target.column : Target → TagColumn
  | .name => .name
  | .exact column => column
  | .contains i => .tags i

/-- A key or proxy name. -/
def isKeyOrProxy (name : Text) : Bool :=
  ends_with name STATS_KEY_FIELD || ends_with name STATS_PROXY_FIELD

/-- The index columns, by their own names. -/
def indexedBy (n : Text) : Option TagColumn :=
  if n = STATS_KEY_FIELD ∨ n = STATS_PROXY_FIELD then some .key
  else ((List.finRange 4).find? fun i : Fin 4 => n = tagsField i.val).map TagColumn.tags

/-- A proxy is looked for in the key column. Behind a key or proxy a suffix must have
the name of an index column. -/
def targetOf (usage : Usage) (n : Text) : Option Target :=
  if n = STATS_NAME_FIELD then some .name
  else if n = STATS_SOURCE_FIELD then some (.exact .source)
  else
    match usage with
    | .plain => if isKeyOrProxy n then some (.exact .key) else some (.contains (tagIndex n))
    | .suffix pname _ =>
      if isKeyOrProxy pname then (indexedBy n).map Target.exact else some (.contains (tagIndex n))

/-- The value `%` is no condition at all. -/
def Target.predicates (target : Target) (n v : Text) : List TagPredicate :=
  match target with
  | .name => [.name v]
  | .exact column => if v = ['%'] then [] else [.index ⟨column.column, .EQ, v⟩]
  | .contains i => [.index ⟨(TagColumn.tags i).column, .LIKE, '%' :: (tagText n v ++ ['%'])⟩]

theorem query_column_tagsField (i : Fin 4) :
    query_column_to_cass_column (tagsField i) = some (TagColumn.tags i).column := by
  match i with
  | 0 | 1 | 2 | 3 => decide

theorem populate_like (n v : Text) :
    populate_where_vec (tagsField (tagIndex n)) .LIKE ('%' :: tagText n v) =
      some [⟨(TagColumn.tags (tagIndex n)).column, .LIKE, '%' :: (tagText n v ++ ['%'])⟩] := by
  unfold populate_where_vec
  rw [query_column_tagsField, Option.map_some]
  have hne : '%' :: (tagText n v ++ ['%']) ≠ ['%'] := by
    intro h
    simpa using congrArg List.length h
  simp only [List.cons_append]
  rw [if_neg hne]

theorem populate_exact {column : Text} {target : TagColumn}
    (h : query_column_to_cass_column column = some target.column) (n v : Text) :
    ∃ infos, populate_where_vec column .EQ v = some infos ∧
      infos.map TagPredicate.index = (Target.exact target).predicates n v := by
  unfold populate_where_vec Target.predicates
  rw [h, Option.map_some]
  refine ⟨_, rfl, ?_⟩
  by_cases hv : v = ['%']
  · simp [hv]
  · simp [hv]

theorem query_column_indexed {n : Text} (hname : n ≠ STATS_NAME_FIELD)
    (hsource : n ≠ STATS_SOURCE_FIELD) :
    query_column_to_cass_column n = (indexedBy n).map TagColumn.column := by
  unfold query_column_to_cass_column index_column_to_column indexedBy
  by_cases hkey : n = STATS_KEY_FIELD
  · subst hkey
    decide
  by_cases hproxy : n = STATS_PROXY_FIELD
  · subst hproxy
    decide
  by_cases h0 : n = tagsField 0
  · subst h0
    decide
  by_cases h1 : n = tagsField 1
  · subst h1
    decide
  by_cases h2 : n = tagsField 2
  · subst h2
    decide
  by_cases h3 : n = tagsField 3
  · subst h3
    decide
  · have hnone : (List.finRange 4).find? (fun i : Fin 4 => n = tagsField i.val) = none := by
      refine List.find?_eq_none.mpr fun i _ => ?_
      match i with
      | 0 => simpa using h0
      | 1 => simpa using h1
      | 2 => simpa using h2
      | 3 => simpa using h3
    simp [hkey, hproxy, hnone, Ne.symm hname, Ne.symm hsource, Ne.symm hkey, Ne.symm hproxy,
      Ne.symm h0, Ne.symm h1, Ne.symm h2, Ne.symm h3]

/-- The normalised name of a prefix is a key or proxy exactly when the name was. -/
theorem prefixTerm_spec (pname pval : Text) :
    ∃ name, prefixTerm pname pval =
        (targetOf .plain pname).map (fun target => (name, target.predicates pname pval)) ∧
      isKeyOrProxy name = isKeyOrProxy pname := by
  unfold prefixTerm targetOf
  by_cases hname : pname = STATS_NAME_FIELD
  · exact ⟨pname, by simp [hname, Target.predicates], rfl⟩
  rw [if_neg hname, if_neg hname]
  by_cases hsource : pname = STATS_SOURCE_FIELD
  · subst hsource
    obtain ⟨infos, hpopulate, hinfos⟩ :=
      populate_exact (show query_column_to_cass_column STATS_SOURCE_FIELD =
        some TagColumn.source.column by decide) STATS_SOURCE_FIELD pval
    have hkey : ends_with STATS_SOURCE_FIELD STATS_KEY_FIELD = false := by decide
    have hproxy : ends_with STATS_SOURCE_FIELD STATS_PROXY_FIELD = false := by decide
    refine ⟨STATS_SOURCE_FIELD, ?_, rfl⟩
    simp [hkey, hproxy, hpopulate, hinfos]
  rw [if_neg hsource]
  by_cases hkey : ends_with pname STATS_KEY_FIELD = true
  · obtain ⟨infos, hpopulate, hinfos⟩ :=
      populate_exact (show query_column_to_cass_column STATS_KEY_FIELD =
        some TagColumn.key.column by decide) pname pval
    have hproxy : ends_with STATS_KEY_FIELD STATS_PROXY_FIELD = false := by decide
    refine ⟨STATS_KEY_FIELD, ?_, ?_⟩
    · simp [hkey, hproxy, hpopulate, hinfos, isKeyOrProxy]
    · simp only [isKeyOrProxy, hkey, Bool.true_or]
      decide
  by_cases hproxy : ends_with pname STATS_PROXY_FIELD = true
  · obtain ⟨infos, hpopulate, hinfos⟩ :=
      populate_exact (show query_column_to_cass_column STATS_PROXY_FIELD =
        some TagColumn.key.column by decide) pname pval
    refine ⟨STATS_PROXY_FIELD, ?_, ?_⟩
    · simp [hkey, hproxy, hpopulate, hinfos, isKeyOrProxy]
    · simp only [isKeyOrProxy, hproxy, Bool.or_true]
      decide
  · refine ⟨pname, ?_, rfl⟩
    simp [hsource, hkey, hproxy, isKeyOrProxy, populate_like, Target.predicates]

theorem suffixTerm_eq (pname n v : Text) (pval : Text) :
    suffixTerm pname n v =
      (targetOf (.suffix pname pval) n).map fun target => target.predicates n v := by
  unfold suffixTerm targetOf
  by_cases hname : n = STATS_NAME_FIELD
  · simp [hname, Target.predicates]
  rw [if_neg hname, if_neg hname]
  by_cases hsource : n = STATS_SOURCE_FIELD
  · subst hsource
    obtain ⟨infos, hpopulate, hinfos⟩ :=
      populate_exact (show query_column_to_cass_column STATS_SOURCE_FIELD =
        some TagColumn.source.column by decide) STATS_SOURCE_FIELD v
    simp [hpopulate, hinfos]
  rw [if_neg hsource]
  by_cases hprefix : isKeyOrProxy pname = true
  · have hor : n = STATS_SOURCE_FIELD ∨ ends_with pname STATS_KEY_FIELD = true ∨
        ends_with pname STATS_PROXY_FIELD = true := by
      simpa [isKeyOrProxy, hsource] using hprefix
    have hcolumn := query_column_indexed hname hsource
    simp only [if_pos hor, if_pos hprefix]
    cases hindexed : indexedBy n with
    | none =>
      rw [hindexed, Option.map_none] at hcolumn
      simp [populate_where_vec, hcolumn]
    | some target =>
      rw [hindexed, Option.map_some] at hcolumn
      obtain ⟨infos, hpopulate, hinfos⟩ := populate_exact hcolumn n v
      simp [hpopulate, hinfos]
  · have hor : ¬ (n = STATS_SOURCE_FIELD ∨ ends_with pname STATS_KEY_FIELD = true ∨
        ends_with pname STATS_PROXY_FIELD = true) := by
      simpa [isKeyOrProxy, hsource] using hprefix
    simp only [if_neg hor, if_neg hprefix]
    simp [populate_like, Target.predicates]

/-- What is built for a term. -/
theorem termPredicate_eq (usage : Usage) (n v : Text) :
    termPredicate usage n v = (targetOf usage n).map fun target => target.predicates n v := by
  cases usage with
  | plain =>
    obtain ⟨name, hprefix, -⟩ := prefixTerm_spec n v
    rw [termPredicate, hprefix, Option.map_map]
    rfl
  | suffix pname pval =>
    obtain ⟨name, hprefix, hname⟩ := prefixTerm_spec pname pval
    obtain ⟨target, htarget⟩ : ∃ target, targetOf .plain pname = some target := by
      unfold targetOf
      split
      · exact ⟨_, rfl⟩
      · split
        · exact ⟨_, rfl⟩
        · simp only
          split <;> exact ⟨_, rfl⟩
    rw [termPredicate, hprefix, htarget, Option.map_some, Option.bind_some,
      suffixTerm_eq name n v pval]
    simp only [targetOf, hname]

-- ---------------------------------------------------------------------------
-- What a term finds
-- ---------------------------------------------------------------------------

section

variable {δ : Type} (showDouble : δ → Text)

/-- The column in which a term looks reads like the tag: the last tag sent to a column
of its own has the value, or `n=v` is found in the text of a tags column. -/
def Target.Reads (target : Target) (n v : Text) (T2 : Nat) (ws : List TagWrite) : Prop :=
  match target with
  | .name => cellOf ws .name = v
  | .exact column => v.head? ≠ some '%' ∧ cellOf ws column = v
  | .contains i => Occurs (tagText n v) (PrependT2 T2 (cellOf ws (.tags i)))

/-- The tags sent to a column, in order. -/
def sentTo (ws : List TagWrite) (column : TagColumn) : List TagWrite :=
  ws.filter fun w => w.column = column

/-- The tags of a column say `v`: the last tag sent to a column of its own has this value
(without a tag the column is empty); those of a tags column, with `;` between them, are
this text. -/
def ColumnIs (ws : List TagWrite) (column : TagColumn) (v : Text) : Prop :=
  match column with
  | .tags i => join [';'] ((sentTo ws (.tags i)).map fun w => tagText w.name w.value) = v
  | column =>
    (∃ front w, sentTo ws column = front ++ [w] ∧ w.value = v) ∨ (sentTo ws column = [] ∧ v = [])

/-- The text of a tag has a `=` with `n` right before and `v` right behind it. -/
def TagLooksLike (w : TagWrite) (n v : Text) : Prop :=
  ∃ before behind, tagText w.name w.value = before ++ '=' :: behind ∧ n <:+ before ∧ v <+: behind

/-- A name and a value without the separators of a tags column, and without `%`. -/
def PlainTag (n v : Text) : Prop :=
  ('%' ∉ n ∧ ';' ∉ n ∧ ':' ∉ n) ∧ '%' ∉ v ∧ ';' ∉ v

/-- Something in the tags column `i` looks like `n=v`: one of its tags, or, if `n` or `v`
has a separator, a part of all of them with the time row in front. -/
def LooksLike (n v : Text) (T2 : Nat) (ws : List TagWrite) (i : Fin 4) : Prop :=
  (PlainTag n v ∧ ∃ w ∈ ws, w.column = .tags i ∧ TagLooksLike w n v) ∨
  (¬ PlainTag n v ∧ Occurs (tagText n v) (PrependT2 T2 (cellOf ws (.tags i))))

/-- The tags of the sample let the term tell `n=v` apart. A column of its own was last sent
`v` exactly for the samples that have the tag. In a tags column the tag of a sample that
has it was written, unless another looks like it, and none looks like it in the others. -/
def Target.TellsApart (target : Target) (n v : Text) (T2 : Nat) (attribs_tag : TagMap δ) : Prop :=
  match target with
  | .name =>
    (Carries showDouble attribs_tag n v → ColumnIs (writes showDouble attribs_tag) .name v) ∧
    (¬ Carries showDouble attribs_tag n v → ¬ ColumnIs (writes showDouble attribs_tag) .name v)
  | .exact column =>
    (Carries showDouble attribs_tag n v →
      v.head? ≠ some '%' ∧ ColumnIs (writes showDouble attribs_tag) column v) ∧
    (¬ Carries showDouble attribs_tag n v →
      v.head? = some '%' ∨ ¬ ColumnIs (writes showDouble attribs_tag) column v)
  | .contains i =>
    (Carries showDouble attribs_tag n v →
      (∃ w ∈ writes showDouble attribs_tag, w.name = n ∧ w.value = v) ∨
        LooksLike n v T2 (writes showDouble attribs_tag) i) ∧
    (¬ Carries showDouble attribs_tag n v →
      ¬ LooksLike n v T2 (writes showDouble attribs_tag) i)

/-- The condition for a term is on the column where the sample's tags of this name
were stored, and holds for the sample if and only if it has the tag with the value. -/
def FindsExactly (usage : Usage) (n v : Text) (T2 : Nat) (attribs_tag : TagMap δ) : Prop :=
  ∃ p, termPredicate usage n v = some [p] ∧
    (∀ w ∈ writes showDouble attribs_tag, w.name = n → w.column.column = p.column) ∧
    (p.holds T2 (StatTableWrite T2 (StatTableInsertTtl showDouble attribs_tag)) = true ↔
      Carries showDouble attribs_tag n v)

theorem column_injective {c c' : TagColumn} (h : c.column = c'.column) : c = c' := by
  revert h
  cases c with
  | tags i =>
    cases c' with
    | tags j =>
      revert i j
      decide
    | _ =>
      revert i
      decide
  | _ =>
    cases c' with
    | tags j =>
      revert j
      decide
    | _ => decide

theorem not_mem_digits {c : Char} (hc : c.isDigit = false) (T2 : Nat) : c ∉ Nat.toDigits 10 T2 := by
  intro hmem
  rw [Nat.isDigit_of_mem_toDigits (b := 10) (n := T2) (by decide) (by decide) hmem] at hc
  cases hc

theorem head_prependT2 (T2 : Nat) (str : Text) : (PrependT2 T2 str).head? ≠ some '%' := by
  unfold PrependT2
  cases hdigits : Nat.toDigits 10 T2 with
  | nil =>
    have hpos : 0 < (Nat.toDigits 10 T2).length := Nat.length_toDigits_pos
    rw [hdigits] at hpos
    cases hpos
  | cons d digits =>
    intro hhead
    obtain rfl : d = '%' := by simpa using hhead
    refine not_mem_digits (c := '%') (by decide) T2 ?_
    rw [hdigits]
    exact List.mem_cons_self

theorem exact_ne_name {usage : Usage} {n : Text} {column : TagColumn}
    (h : targetOf usage n = some (.exact column)) : column ≠ .name := by
  rintro rfl
  unfold targetOf at h
  split at h
  · cases h
  split at h
  · cases h
  cases usage with
  | plain =>
    simp only at h
    split at h <;> cases h
  | suffix pname pval =>
    simp only at h
    split at h
    · obtain ⟨column, hindexed, heq⟩ := Option.map_eq_some_iff.mp h
      obtain rfl := Target.exact.inj heq
      unfold indexedBy at hindexed
      split at hindexed
      · cases hindexed
      · obtain ⟨i, -, heq⟩ := Option.map_eq_some_iff.mp hindexed
        cases heq
    · cases h

theorem pipelineCb_eq_iff (T2 : Nat) (cell v : Text) :
    PrependT2 T2 cell = PipelineCb T2 v ↔ v.head? ≠ some '%' ∧ cell = v := by
  unfold PipelineCb
  split
  · rename_i hv
    refine ⟨fun heq => absurd (heq ▸ hv) (head_prependT2 T2 cell), fun h => absurd hv h.1⟩
  · rename_i hv
    refine ⟨fun heq => ⟨hv, ?_⟩, fun h => by rw [h.2]⟩
    exact (List.cons.inj (List.append_cancel_left heq)).2

/-- The database finds the tag when the column shows it. -/
theorem holds_iff {usage : Usage} {n v : Text} {target : Target} {p : TagPredicate}
    (htarget : targetOf usage n = some target) (hp : target.predicates n v = [p]) (T2 : Nat)
    (attribs_tag : TagMap δ) :
    p.holds T2 (StatTableWrite T2 (StatTableInsertTtl showDouble attribs_tag)) = true ↔
      target.Reads n v T2 (writes showDouble attribs_tag) := by
  have hstored := stored_columns showDouble T2 attribs_tag target.column
  cases target with
  | name =>
    obtain rfl := (List.cons.inj hp).1
    simp only [Target.column, TagColumn.column, if_true] at hstored
    simp [TagPredicate.holds, hstored, Target.Reads]
  | exact column =>
    have hne := exact_ne_name htarget
    rw [Target.predicates] at hp
    split at hp
    · cases hp
    · obtain rfl := (List.cons.inj hp).1
      rw [Target.column, if_neg hne] at hstored
      simp only [TagPredicate.holds, hstored, Target.Reads, decide_eq_true_eq]
      exact pipelineCb_eq_iff T2 _ v
  | contains i =>
    obtain rfl := (List.cons.inj hp).1
    rw [Target.column, if_neg (by exact nofun)] at hstored
    simp only [TagPredicate.holds, hstored, Target.Reads, PipelineCb, List.head?_cons, if_true]
    exact like_contains_iff

theorem predicates_column {target : Target} {n v : Text} {p : TagPredicate}
    (hp : target.predicates n v = [p]) : p.column = target.column.column := by
  cases target with
  | name =>
    obtain rfl := (List.cons.inj hp).1
    rfl
  | exact column =>
    rw [Target.predicates] at hp
    split at hp
    · cases hp
    · obtain rfl := (List.cons.inj hp).1
      rfl
  | contains i =>
    obtain rfl := (List.cons.inj hp).1
    rfl

theorem predicates_single_iff (target : Target) (n v : Text) :
    (∃ p, target.predicates n v = [p]) ↔ ∀ column, target = .exact column → v ≠ ['%'] := by
  cases target with
  | name => exact ⟨fun _ _ h => (nomatch h), fun _ => ⟨_, rfl⟩⟩
  | contains i => exact ⟨fun _ _ h => (nomatch h), fun _ => ⟨_, rfl⟩⟩
  | exact column =>
    rw [Target.predicates]
    by_cases hv : v = ['%']
    · rw [if_pos hv]
      exact ⟨fun ⟨_, hp⟩ => (nomatch hp), fun h => absurd hv (h column rfl)⟩
    · rw [if_neg hv]
      exact ⟨fun _ _ _ => hv, fun _ => ⟨_, rfl⟩⟩

/-- A tag is in the text of its tags column. -/
theorem infix_of_written {w : TagWrite} {ws : List TagWrite} {i : Fin 4} (hw : w ∈ ws)
    (hcolumn : w.column = .tags i) (T2 : Nat) :
    tagText w.name w.value <:+: PrependT2 T2 (cellOf ws (.tags i)) := by
  have htext : tagText w.name w.value = w.text := by
    rw [TagWrite.text, hcolumn]
  have hmem : w.text ∈ (ws.filter fun w => w.column = .tags i).map TagWrite.text :=
    List.mem_map_of_mem (List.mem_filter.mpr ⟨hw, by simpa using hcolumn⟩)
  have hcell : cellOf ws (.tags i) <:+: PrependT2 T2 (cellOf ws (.tags i)) :=
    ((List.suffix_cons ':' _).trans (List.suffix_append (Nat.toDigits 10 T2) _)).isInfix
  rw [htext]
  exact (infix_intercalate_of_mem hmem [';']).trans hcell

theorem reads_of_written {w : TagWrite} {ws : List TagWrite} {i : Fin 4} (hw : w ∈ ws)
    (hcolumn : w.column = .tags i) (T2 : Nat) :
    (Target.contains i).Reads w.name w.value T2 ws :=
  occurs_of_infix (infix_of_written hw hcolumn T2)

/-- A tags column reads like `n=v` when something in it looks like it. -/
theorem reads_iff_looksLike (n v : Text) (T2 : Nat) (ws : List TagWrite) (i : Fin 4) :
    (Target.contains i).Reads n v T2 ws ↔ LooksLike n v T2 ws i := by
  by_cases hplain : PlainTag n v
  · obtain ⟨hn, hv⟩ := hplain
    have hfree : ∀ c, c ≠ '=' → c ∉ n → c ∉ v → c ∉ tagText n v := by
      intro c hc hcn hcv
      simp [tagText, hc, hcn, hcv]
    have hne : tagText n v ≠ [] := by
      simp [tagText]
    have hinside : (Target.contains i).Reads n v T2 ws ↔
        ∃ text ∈ (ws.filter fun w => w.column = .tags i).map TagWrite.text,
          tagText n v <:+: text := by
      rw [Target.Reads, occurs_iff_infix (hfree '%' (by decide) hn.1 hv.1), PrependT2, tagText,
        infix_after_iff hn.2.2 (by decide) (not_mem_digits (by decide) T2)]
      exact infix_intercalate_iff (hfree ';' (by decide) hn.2.1 hv.2) hne _
    rw [hinside]
    simp only [LooksLike, PlainTag, hn, hv, not_true_eq_false, false_and, or_false, not_false_eq_true,
      and_self, true_and]
    constructor
    · rintro ⟨text, htext, hinfix⟩
      obtain ⟨w, hw, rfl⟩ := List.mem_map.mp htext
      obtain ⟨hmem, hcolumn⟩ := List.mem_filter.mp hw
      have hcolumn : w.column = .tags i := by simpa using hcolumn
      rw [TagWrite.text, hcolumn] at hinfix
      exact ⟨w, hmem, hcolumn, infix_iff_split.mp hinfix⟩
    · rintro ⟨w, hmem, hcolumn, hlooks⟩
      refine ⟨w.text, List.mem_map_of_mem (List.mem_filter.mpr ⟨hmem, by simpa using hcolumn⟩), ?_⟩
      rw [TagWrite.text, hcolumn]
      exact infix_iff_split.mpr hlooks
  · simp only [LooksLike, hplain, false_and, false_or, not_false_eq_true, true_and]
    exact Iff.rfl

/-- Among names and values without separators a tag looks like `n=v` when its name ends in
`n` and its value begins with `v`. -/
theorem looksLike_iff_affix {n v : Text} {ws : List TagWrite} (hplain : PlainTag n v)
    (hws : ∀ w ∈ ws, '=' ∉ w.name ∧ '=' ∉ w.value) (i : Fin 4) (T2 : Nat) :
    LooksLike n v T2 ws i ↔
      ∃ w ∈ ws, w.column = .tags i ∧ n <:+ w.name ∧ v <+: w.value := by
  simp only [LooksLike, hplain, not_true_eq_false, false_and, or_false, true_and]
  refine exists_congr fun w => and_congr_right fun hw => and_congr_right fun _ => ?_
  exact infix_iff_split.symm.trans (infix_keyed_iff (hws w hw).1 (hws w hw).2)

/-- The text of a column is what its tags say. -/
theorem cellOf_eq_iff (ws : List TagWrite) (column : TagColumn) (v : Text) :
    cellOf ws column = v ↔ ColumnIs ws column v := by
  have hlast : ∀ values : List TagWrite, (values.map TagWrite.value).getLast?.getD [] = v ↔
      (∃ front w, values = front ++ [w] ∧ w.value = v) ∨ (values = [] ∧ v = []) := by
    intro values
    rcases List.eq_nil_or_concat values with rfl | ⟨front, w, rfl⟩
    · constructor
      · rintro rfl
        exact .inr ⟨rfl, rfl⟩
      · rintro (⟨front, w, heq, -⟩ | ⟨-, rfl⟩)
        · simp at heq
        · rfl
    · simp only [List.concat_eq_append, List.map_append, List.map_cons, List.map_nil,
        List.getLast?_append, List.getLast?_singleton, Option.some_or, Option.getD_some]
      constructor
      · intro hv
        exact .inl ⟨front, w, rfl, hv⟩
      · rintro (⟨front', w', heq, hv⟩ | ⟨hnil, -⟩)
        · obtain ⟨-, hone⟩ := List.append_inj' heq rfl
          rw [(List.cons.inj hone).1]
          exact hv
        · simp at hnil
  have htexts : ∀ (f : TagWrite → Text), (∀ w, w.column = column → w.text = f w) →
      (ws.filter fun w => w.column = column).map TagWrite.text = (sentTo ws column).map f :=
    fun f hf => List.map_congr_left fun w hw => hf w (by simpa using (List.mem_filter.mp hw).2)
  cases column with
  | tags i =>
    rw [cellOf, htexts (fun w => tagText w.name w.value) fun w hw => by rw [TagWrite.text, hw]]
    exact Iff.rfl
  | name =>
    have hvalues := htexts TagWrite.value fun w hw => by rw [TagWrite.text, hw]
    exact (Eq.congr_left (congrArg (fun texts => texts.getLast?.getD []) hvalues)).trans
      (hlast (sentTo ws .name))
  | source =>
    have hvalues := htexts TagWrite.value fun w hw => by rw [TagWrite.text, hw]
    exact (Eq.congr_left (congrArg (fun texts => texts.getLast?.getD []) hvalues)).trans
      (hlast (sentTo ws .source))
  | key =>
    have hvalues := htexts TagWrite.value fun w hw => by rw [TagWrite.text, hw]
    exact (Eq.congr_left (congrArg (fun texts => texts.getLast?.getD []) hvalues)).trans
      (hlast (sentTo ws .key))
  | proxy =>
    have hvalues := htexts TagWrite.value fun w hw => by rw [TagWrite.text, hw]
    exact (Eq.congr_left (congrArg (fun texts => texts.getLast?.getD []) hvalues)).trans
      (hlast (sentTo ws .proxy))

theorem reads_iff_apart {reads carries : Prop} :
    (reads ↔ carries) ↔ (carries → reads) ∧ (¬ carries → ¬ reads) := by
  constructor
  · exact fun hiff => ⟨hiff.mpr, fun hnot hreads => hnot (hiff.mp hreads)⟩
  · rintro ⟨hfound, hmistaken⟩
    exact ⟨fun hreads => by_contra fun hnot => hmistaken hnot hreads, hfound⟩

/-- A column shows the tag for the samples that have it and for no others exactly when
their tags let the term tell it apart. -/
theorem tellsApart_iff {target : Target} {n : Text} (v : Text) (T2 : Nat) (attribs_tag : TagMap δ)
    (hstored : ∀ w ∈ writes showDouble attribs_tag, w.name = n → w.column = target.column) :
    (target.Reads n v T2 (writes showDouble attribs_tag) ↔ Carries showDouble attribs_tag n v) ↔
      target.TellsApart showDouble n v T2 attribs_tag := by
  cases target with
  | name =>
    simp only [Target.Reads, Target.TellsApart, cellOf_eq_iff]
    exact reads_iff_apart
  | exact column =>
    simp only [Target.Reads, Target.TellsApart, cellOf_eq_iff]
    refine reads_iff_apart.trans (and_congr_right fun _ => imp_congr_right fun _ => ?_)
    rw [not_and_or, not_ne_iff]
  | contains i =>
    have hwritten : (∃ w ∈ writes showDouble attribs_tag, w.name = n ∧ w.value = v) →
        LooksLike n v T2 (writes showDouble attribs_tag) i := by
      rintro ⟨w, hw, rfl, rfl⟩
      exact (reads_iff_looksLike _ _ _ _ _).mp (reads_of_written hw (hstored w hw rfl) T2)
    rw [reads_iff_looksLike, Target.TellsApart, or_iff_right_of_imp hwritten]
    exact reads_iff_apart

/-- A sample with one tag. -/
def oneTag (n str : Text) : TagMap δ := [(n, .STRING str, [])]

theorem writes_oneTag {n : Text} (hn : specialColumn n = none) (str : Text) :
    writes showDouble (oneTag n str) = [tagWrite n str] := by
  simp only [writes, oneTag, tagWrites, hn, List.flatMap_cons, List.flatMap_nil, List.append_nil]
  rfl

theorem carries_oneTag (n str v : Text) :
    Carries showDouble (oneTag n str) n v ↔ str = v := by
  constructor
  · rintro ⟨it, hit, hbears | ⟨jt, hjt, -⟩⟩
    · obtain rfl := List.mem_singleton.mp hit
      exact hbears.2
    · obtain rfl := List.mem_singleton.mp hit
      cases hjt
  · intro hstr
    exact ⟨_, List.mem_singleton_self _, Or.inl ⟨rfl, hstr⟩⟩

theorem targetOf_plain {n : Text} (hn : specialColumn n = none) :
    targetOf .plain n = some (.contains (tagIndex n)) := by
  unfold specialColumn at hn
  split_ifs at hn with hname hsource hkey hproxy
  simp [targetOf, hname, hsource, isKeyOrProxy, hkey, hproxy]

/-- A sample whose value goes on after `v` is found as well. -/
theorem longer_value_found {n : Text} (hn : specialColumn n = none) (v : Text) {x : Text}
    (hx : x ≠ []) (T2 : Nat) :
    ¬ FindsExactly showDouble .plain n v T2 (oneTag n (v ++ x)) := by
  have htarget := targetOf_plain hn
  have hcarries : ¬ Carries showDouble (oneTag n (v ++ x)) n v := by
    rw [carries_oneTag]
    exact fun h => hx (by simpa using h)
  rintro ⟨p, hp, -, hholds⟩
  rw [termPredicate_eq, htarget] at hp
  refine hcarries (hholds.mp ((holds_iff showDouble htarget (Option.some.inj hp) T2 _).mpr ?_))
  rw [writes_oneTag showDouble hn]
  refine occurs_of_infix ⟨Nat.toDigits 10 T2 ++ [':'], x, ?_⟩
  simp [cellOf, tagWrite, TagWrite.text, join, PrependT2, tagText]

end

end TfAnalytics.QueryEngine
