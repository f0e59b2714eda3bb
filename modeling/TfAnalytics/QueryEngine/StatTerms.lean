import Mathlib
import TfAnalytics.QueryEngine.Filters
import TfAnalytics.QueryEngine.WhereVectors
import TfAnalytics.Lib.LexRange

/-!
# Query engine — the operators of stats terms

The loop of the constructor of `WhereQuery` over the terms of a stat query, with the
operator of each. A condition on `name` is kept for the slice of the name column, the
last one in place of those before; columns of their own are compared with `EQ` or, for
PREFIX, with `LIKE`; what is looked for in a tags column is looked for with `LIKE`
whatever the operator of a term is.

* `foldlM_addTerm` — the loop succeeds if every match has its conditions, and pushes them.
* `admits_iff` — a row is admitted if it is in the slice and meets the conditions of every
  match.
-/

namespace TfAnalytics.QueryEngine.StatRanges

open TfAnalytics.Lib TfAnalytics.Collector

-- ---------------------------------------------------------------------------
-- Terms
-- ---------------------------------------------------------------------------

/-- A name with an operator; the values are given as `DbDataValueToString` prints them. -/
structure StatMatch where
  name : Text
  op : MatchOp
  value : Text
  value2 : Option Text := none

/-- A term by itself, or with a suffix. -/
structure StatTerm where
  pmatch : StatMatch
  smatch : Option StatMatch := none

/-- `StatTermParse`, for a table of which no schema is given: before a suffix there is
EQUAL with one value. -/
def StatTermParse (t : StatTerm) : Bool :=
  match t.smatch with
  | some _ => t.pmatch.op = .EQUAL && t.pmatch.value2.isNone
  | none => true

/-- The variables of the loop. -/
structure StatMatches where
  name_match : Option StatMatch
  where_vec_stats : WhereIndexInfoVec WhereIndexInfo
  where_vec_tags_stats : Fin 4 → WhereIndexInfoVec WhereIndexInfo

def StatMatches.pushStats (m : StatMatches) (infos : List WhereIndexInfo) : StatMatches :=
  { m with where_vec_stats := m.where_vec_stats ++ infos }

def StatMatches.pushTags (m : StatMatches) (idx : Fin 4) (infos : List WhereIndexInfo) :
    StatMatches :=
  { m with where_vec_tags_stats :=
      Function.update m.where_vec_tags_stats idx (m.where_vec_tags_stats idx ++ infos) }

/-- The assignments to `pname` for the key and proxy columns. -/
def normalName (pname : Text) : Text :=
  let pname := if ends_with pname STATS_KEY_FIELD then STATS_KEY_FIELD else pname
  if ends_with pname STATS_PROXY_FIELD then STATS_PROXY_FIELD else pname

/-- The prefix of a term, or the whole of it; `pname` is returned as it is afterwards. -/
def addPrefix (m : StatMatches) (t : StatMatch) : Option (Text × StatMatches) :=
  if t.name = STATS_NAME_FIELD then some (t.name, { m with name_match := some t })
  else if t.name = STATS_SOURCE_FIELD ∨ ends_with t.name STATS_KEY_FIELD = true ∨
      ends_with t.name STATS_PROXY_FIELD = true then
    if t.op = .EQUAL then
      (populate_where_vec (normalName t.name) .EQ t.value).map fun infos =>
        (normalName t.name, m.pushStats infos)
    else if t.op = .PREFIX then
      if t.value = [] then some (normalName t.name, m)
      else
        (populate_where_vec (normalName t.name) .LIKE t.value).map fun infos =>
          (normalName t.name, m.pushStats infos)
    else none
  else
    (populate_where_vec (tagsField (tagIndex t.name)) .LIKE ('%' :: tagText t.name t.value)).map
      fun infos => (t.name, m.pushTags (tagIndex t.name) infos)

/-- The suffix of a term. The test for the key and proxy columns is on the name of the
prefix. -/
def addSuffix (m : StatMatches) (pname : Text) (t : StatMatch) : Option StatMatches :=
  if t.name = STATS_NAME_FIELD then some { m with name_match := some t }
  else if t.name = STATS_SOURCE_FIELD ∨ ends_with pname STATS_KEY_FIELD = true ∨
      ends_with pname STATS_PROXY_FIELD = true then
    if t.op = .EQUAL ∨ t.op = .PREFIX then
      (populate_where_vec t.name (if t.op = .EQUAL then .EQ else .LIKE) t.value).map m.pushStats
    else none
  else
    if t.op = .EQUAL ∨ t.op = .PREFIX then
      (populate_where_vec (tagsField (tagIndex t.name)) .LIKE ('%' :: tagText t.name t.value)).map
        (m.pushTags (tagIndex t.name))
    else none

/-- One turn of the loop; `none` is an invalid argument. A suffix with the operator 0 is
none. -/
def addTerm (m : StatMatches) (t : StatTerm) : Option StatMatches := do
  guard (StatTermParse t = true)
  let (pname, m) ← addPrefix m t.pmatch
  match t.smatch with
  | some s => if s.op ≠ .other 0 then addSuffix m pname s else some m
  | none => some m

/-- A query of the stats table. -/
structure DbQueryUnit where
  start_ : Text
  finish_ : Text
  where_vec : WhereIndexInfoVec WhereIndexInfo

/-- The bounds of the name column; other operators than EQUAL and PREFIX are an invalid
argument. -/
def nameSlice (name_match : Option StatMatch) : Option (Text × Text) :=
  match name_match with
  | some t =>
    if t.op = .EQUAL then some (t.value, t.value)
    else if t.op = .PREFIX then some (t.value, t.value ++ ['\x7f'])
    else none
  | none => some ([], ['\x7f'])

/-- An OR term; an empty one is an invalid argument. -/
def orTerm (terms : List StatTerm) : Option (List DbQueryUnit) := do
  guard (terms.length ≠ 0)
  let m ← terms.foldlM addTerm ⟨none, [], fun _ => []⟩
  let cr ← nameSlice m.name_match
  let where_vec_list := populate_stats_where_vec_list m.where_vec_stats
    [m.where_vec_tags_stats 0, m.where_vec_tags_stats 1, m.where_vec_tags_stats 2,
      m.where_vec_tags_stats 3]
  some (where_vec_list.map fun where_vec => ⟨cr.1, cr.2, where_vec⟩)

/-- The row is in the answer of the database; names are compared byte by byte. -/
structure DbQueryUnit.Selects (T2 : Nat) (unit : DbQueryUnit) (row : String → Option Text) :
    Prop where
  slice : ∃ name, row "column1" = some name ∧ unit.start_ ≤ name ∧ name ≤ unit.finish_
  indexes : ∀ info ∈ unit.where_vec, (TagPredicate.index info).holds T2 row = true

/-- The answers of the sub-queries are intersected. -/
def Admits (T2 : Nat) (units : List DbQueryUnit) (row : String → Option Text) : Prop :=
  ∀ unit ∈ units, unit.Selects T2 row

-- ---------------------------------------------------------------------------
-- StatSlicer
-- ---------------------------------------------------------------------------

/-- `GenDb::DbDataValue`, for the values of tags. -/
inductive DbDataValue (δ : Type) where
  | STRING (str : Text)
  | UINT64 (num : Fin (2 ^ 64))
  | DOUBLE (dbl : δ)

/-- The slice of a tag in the tables before the stats table; `none` is the return value
`false`. -/
def StatSlicer {δ : Type} (op : MatchOp) (val val2 : DbDataValue δ) :
    Option (DbDataValue δ × DbDataValue δ) :=
  match val with
  | .STRING str =>
    if op = .EQUAL then some (val, val)
    else if op = .PREFIX then some (val, .STRING (str ++ ['\x7f']))
    else none
  | _ =>
    if op = .EQUAL then some (val, val)
    else if op = .IN_RANGE then some (val, val2)
    else none

-- ---------------------------------------------------------------------------
-- The conditions of a match
-- ---------------------------------------------------------------------------

/-- The operators a match in a tags column can have. -/
def acceptsTag : Usage → MatchOp → Bool
  | .plain, _ => true
  | .suffix _ _, op => op = .EQUAL || op = .PREFIX

/-- The conditions on index columns that are pushed for a match. -/
def conditions (usage : Usage) (t : StatMatch) : Option (List WhereIndexInfo) :=
  match targetOf usage t.name with
  | none => none
  | some .name => some []
  | some (.exact column) =>
    if t.op = .EQUAL then some (if t.value = ['%'] then [] else [⟨column.column, .EQ, t.value⟩])
    else if t.op = .PREFIX then
      some (if t.value = [] then [] else [⟨column.column, .LIKE, t.value ++ ['%']⟩])
    else none
  | some (.contains i) =>
    if acceptsTag usage t.op = true then
      some [⟨(TagColumn.tags i).column, .LIKE, '%' :: (tagText t.name t.value ++ ['%'])⟩]
    else none

/-- What the loop does with a match it accepts. -/
def StatMatches.push (m : StatMatches) (u : Usage × StatMatch) : StatMatches :=
  match targetOf u.1 u.2.name with
  | none => m
  | some .name => { m with name_match := some u.2 }
  | some (.exact _) => m.pushStats ((conditions u.1 u.2).getD [])
  | some (.contains i) => m.pushTags i ((conditions u.1 u.2).getD [])

theorem populate_LIKE {column : Text} {target : TagColumn}
    (h : query_column_to_cass_column column = some target.column) (v : Text) :
    populate_where_vec column .LIKE v =
      some (if v = [] then [] else [⟨target.column, .LIKE, v ++ ['%']⟩]) := by
  unfold populate_where_vec
  rw [h, Option.map_some]
  by_cases hv : v = []
  · simp [hv]
  · simp [hv]

theorem populate_EQ {column : Text} {target : TagColumn}
    (h : query_column_to_cass_column column = some target.column) (v : Text) :
    populate_where_vec column .EQ v =
      some (if v = ['%'] then [] else [⟨target.column, .EQ, v⟩]) := by
  unfold populate_where_vec
  rw [h, Option.map_some]

/-- A name with a column of its own is looked up by its normalised name. -/
theorem normalName_spec {n : Text} (hname : n ≠ STATS_NAME_FIELD)
    (h : n = STATS_SOURCE_FIELD ∨ isKeyOrProxy n = true) :
    ∃ column, targetOf .plain n = some (.exact column) ∧
      query_column_to_cass_column (normalName n) = some column.column ∧
      isKeyOrProxy (normalName n) = isKeyOrProxy n := by
  unfold targetOf
  rw [if_neg hname]
  by_cases hsource : n = STATS_SOURCE_FIELD
  · subst hsource
    exact ⟨.source, by simp, by decide, by decide⟩
  have hboth : isKeyOrProxy n = true := h.resolve_left hsource
  refine ⟨.key, by simp [hsource, hboth], ?_⟩
  rw [hboth]
  unfold normalName
  by_cases hkey : ends_with n STATS_KEY_FIELD = true
  · rw [if_pos hkey]
    decide
  · have hproxy : ends_with n STATS_PROXY_FIELD = true := by
      simpa [isKeyOrProxy, hkey] using hboth
    rw [if_neg hkey, if_pos hproxy]
    decide

theorem isSpecial_iff (pname n : Text) :
    (n = STATS_SOURCE_FIELD ∨ ends_with pname STATS_KEY_FIELD = true ∨
      ends_with pname STATS_PROXY_FIELD = true) ↔
      n = STATS_SOURCE_FIELD ∨ isKeyOrProxy pname = true := by
  simp [isKeyOrProxy]

/-- The prefix of a term is accepted if it has its conditions, and pushes them. -/
theorem addPrefix_eq (m : StatMatches) (t : StatMatch) : ∃ pname,
    addPrefix m t = (conditions .plain t).map (fun _ => (pname, m.push (.plain, t))) ∧
      isKeyOrProxy pname = isKeyOrProxy t.name := by
  unfold addPrefix
  simp only [isSpecial_iff]
  by_cases hname : t.name = STATS_NAME_FIELD
  · exact ⟨t.name, by simp [hname, conditions, StatMatches.push, targetOf], rfl⟩
  rw [if_neg hname]
  by_cases hspecial : t.name = STATS_SOURCE_FIELD ∨ isKeyOrProxy t.name = true
  · obtain ⟨column, htarget, hcolumn, hnormal⟩ := normalName_spec hname hspecial
    refine ⟨normalName t.name, ?_, hnormal⟩
    rw [if_pos hspecial, populate_EQ hcolumn, populate_LIKE hcolumn]
    by_cases hequal : t.op = .EQUAL
    · simp [conditions, StatMatches.push, htarget, hequal]
    by_cases hprefix : t.op = .PREFIX
    · by_cases hvalue : t.value = []
      · simp [conditions, StatMatches.push, htarget, hprefix, hvalue, StatMatches.pushStats]
      · simp [conditions, StatMatches.push, htarget, hprefix, hvalue]
    · simp [conditions, htarget, hequal, hprefix]
  · have htarget : targetOf .plain t.name = some (.contains (tagIndex t.name)) := by
      rw [not_or] at hspecial
      simp [targetOf, hname, hspecial.1, hspecial.2]
    refine ⟨t.name, ?_, rfl⟩
    rw [if_neg hspecial, populate_like]
    simp [conditions, StatMatches.push, htarget, acceptsTag]

/-- The suffix of a term is accepted if it has its conditions, and pushes them. -/
theorem addSuffix_eq (m : StatMatches) (pname pval : Text) (t : StatMatch) :
    addSuffix m pname t =
      (conditions (.suffix pname pval) t).map fun _ => m.push (.suffix pname pval, t) := by
  unfold addSuffix
  simp only [isSpecial_iff]
  by_cases hname : t.name = STATS_NAME_FIELD
  · simp [hname, conditions, StatMatches.push, targetOf]
  rw [if_neg hname]
  by_cases hspecial : t.name = STATS_SOURCE_FIELD ∨ isKeyOrProxy pname = true
  · rw [if_pos hspecial]
    obtain htarget | ⟨column, htarget, hcolumn⟩ :
        targetOf (.suffix pname pval) t.name = none ∧ query_column_to_cass_column t.name = none ∨
          ∃ column, targetOf (.suffix pname pval) t.name = some (.exact column) ∧
            query_column_to_cass_column t.name = some column.column := by
      unfold targetOf
      rw [if_neg hname]
      by_cases hsource : t.name = STATS_SOURCE_FIELD
      · rw [if_pos hsource, hsource]
        exact .inr ⟨.source, rfl, by decide⟩
      · rw [if_neg hsource, query_column_indexed hname hsource]
        simp only [if_pos (hspecial.resolve_left hsource)]
        cases indexedBy t.name with
        | none => exact .inl ⟨rfl, rfl⟩
        | some column => exact .inr ⟨column, rfl, rfl⟩
    · simp [conditions, htarget.1, populate_where_vec, htarget.2]
    · have hpopulate : populate_where_vec t.name (if t.op = .EQUAL then .EQ else .LIKE) t.value =
          some (if t.op = .EQUAL then
            (if t.value = ['%'] then [] else [⟨column.column, .EQ, t.value⟩])
          else (if t.value = [] then [] else [⟨column.column, .LIKE, t.value ++ ['%']⟩])) := by
        split
        · exact populate_EQ hcolumn t.value
        · exact populate_LIKE hcolumn t.value
      rw [hpopulate]
      by_cases hequal : t.op = .EQUAL
      · simp [conditions, StatMatches.push, htarget, hequal]
      by_cases hprefix : t.op = .PREFIX
      · simp [conditions, StatMatches.push, htarget, hprefix]
      · simp [conditions, htarget, hequal, hprefix]
  · have htarget : targetOf (.suffix pname pval) t.name = some (.contains (tagIndex t.name)) := by
      rw [not_or] at hspecial
      simp [targetOf, hname, hspecial.1, hspecial.2]
    rw [if_neg hspecial, populate_like]
    by_cases hop : t.op = .EQUAL ∨ t.op = .PREFIX
    · simp [conditions, StatMatches.push, htarget, acceptsTag, hop]
    · simp [conditions, htarget, acceptsTag, hop]

-- ---------------------------------------------------------------------------
-- The loop
-- ---------------------------------------------------------------------------

/-- The matches of a term, in the order in which the loop comes to them. -/
def StatTerm.uses (t : StatTerm) : List (Usage × StatMatch) :=
  (.plain, t.pmatch) ::
    match t.smatch with
    | some s => if s.op ≠ .other 0 then [(.suffix t.pmatch.name t.pmatch.value, s)] else []
    | none => []

/-- The matches of an OR term. -/
def uses (terms : List StatTerm) : List (Usage × StatMatch) := terms.flatMap StatTerm.uses

theorem suffix_congr {pname pname' : Text} (h : isKeyOrProxy pname = isKeyOrProxy pname')
    (pval : Text) (t : StatMatch) (m : StatMatches) :
    conditions (.suffix pname pval) t = conditions (.suffix pname' pval) t ∧
      m.push (.suffix pname pval, t) = m.push (.suffix pname' pval, t) := by
  have htarget : targetOf (.suffix pname pval) t.name = targetOf (.suffix pname' pval) t.name := by
    simp only [targetOf, h]
  have hconditions : conditions (.suffix pname pval) t = conditions (.suffix pname' pval) t := by
    unfold conditions
    rw [htarget]
    rfl
  exact ⟨hconditions, by simp only [StatMatches.push, htarget, hconditions]⟩

/-- One turn of the loop accepts all matches of the term and pushes them. -/
theorem addTerm_cases {m m' : StatMatches} {t : StatTerm} (h : addTerm m t = some m') :
    StatTermParse t = true ∧ (∀ u ∈ t.uses, (conditions u.1 u.2).isSome = true) ∧
      m' = t.uses.foldl StatMatches.push m := by
  unfold addTerm at h
  obtain ⟨_, hguard, h⟩ := Option.bind_eq_some_iff.mp h
  have hparse : StatTermParse t = true := by
    by_contra hnot
    simp [guard, hnot] at hguard
  obtain ⟨⟨pname, m₁⟩, hprefix, h⟩ := Option.bind_eq_some_iff.mp h
  obtain ⟨name, heq, hname⟩ := addPrefix_eq m t.pmatch
  rw [heq] at hprefix
  obtain ⟨infos, hinfos, hpair⟩ := Option.map_eq_some_iff.mp hprefix
  obtain ⟨rfl, rfl⟩ := Prod.mk.inj hpair
  have hplain : (conditions .plain t.pmatch).isSome = true := by rw [hinfos]; rfl
  refine ⟨hparse, ?_⟩
  unfold StatTerm.uses
  cases hsuffix : t.smatch with
  | none =>
    simp only [hsuffix, Option.some.injEq] at h
    subst h
    exact ⟨by simpa using hplain, rfl⟩
  | some s =>
    simp only [hsuffix] at h
    by_cases hop : s.op = .other 0
    · simp only [hop, ne_eq, not_true_eq_false, if_false, Option.some.injEq] at h
      subst h
      exact ⟨by simpa [hop] using hplain, by simp [hop]⟩
    · rw [if_pos hop, addSuffix_eq _ _ t.pmatch.value,
        (suffix_congr hname t.pmatch.value s m).1] at h
      obtain ⟨infos', hinfos', hm'⟩ := Option.map_eq_some_iff.mp h
      rw [(suffix_congr hname t.pmatch.value s _).2] at hm'
      subst hm'
      exact ⟨by simp [hop, hplain, hinfos'], by simp [hop]⟩

/-- The loop accepts all matches and pushes them one after the other. -/
theorem foldlM_addTerm {terms : List StatTerm} {m m' : StatMatches}
    (h : terms.foldlM addTerm m = some m') :
    (∀ u ∈ uses terms, (conditions u.1 u.2).isSome = true) ∧
      m' = (uses terms).foldl StatMatches.push m := by
  induction terms generalizing m with
  | nil =>
    obtain rfl := Option.some.inj h
    exact ⟨by simp [uses], rfl⟩
  | cons t terms ih =>
    rw [List.foldlM_cons] at h
    obtain ⟨m₁, hm₁, hrun⟩ := Option.bind_eq_some_iff.mp h
    obtain ⟨-, hconditions, rfl⟩ := addTerm_cases hm₁
    obtain ⟨hrest, rfl⟩ := ih hrun
    unfold uses at *
    rw [List.flatMap_cons, List.foldl_append]
    exact ⟨fun u hu => (List.mem_append.mp hu).elim (hconditions u) (hrest u), rfl⟩

-- ---------------------------------------------------------------------------
-- What the sub-queries ask together
-- ---------------------------------------------------------------------------

/-- The conditions of a match on columns of their own. -/
def statsInfos (u : Usage × StatMatch) : List WhereIndexInfo :=
  match targetOf u.1 u.2.name with
  | some (.exact _) => (conditions u.1 u.2).getD []
  | _ => []

/-- The conditions of a match on one of the tags columns. -/
def tagsInfos (i : Fin 4) (u : Usage × StatMatch) : List WhereIndexInfo :=
  match targetOf u.1 u.2.name with
  | some (.contains j) => if j = i then (conditions u.1 u.2).getD [] else []
  | _ => []

/-- The last match on the name, if there is one. -/
def lastName (us : List (Usage × StatMatch)) : Option StatMatch :=
  (us.reverse.find? fun u => u.2.name = STATS_NAME_FIELD).map Prod.snd

theorem lastName_append (us us' : List (Usage × StatMatch)) :
    lastName (us ++ us') = (lastName us').or (lastName us) := by
  unfold lastName
  rw [List.reverse_append, List.find?_append, Option.map_or]

theorem targetOf_eq_name_iff (usage : Usage) (n : Text) :
    targetOf usage n = some .name ↔ n = STATS_NAME_FIELD := by
  unfold targetOf
  by_cases hname : n = STATS_NAME_FIELD
  · simp [hname]
  rw [if_neg hname]
  by_cases hsource : n = STATS_SOURCE_FIELD
  · simp [hsource]
    decide
  rw [if_neg hsource]
  cases usage with
  | plain =>
    simp only
    split <;> simp [hname]
  | suffix pname pval =>
    simp only
    split <;> simp [hname]

/-- One match pushed, by what it leaves in each variable. -/
theorem push_spec (m : StatMatches) (u : Usage × StatMatch) :
    (m.push u).name_match = (lastName [u]).or m.name_match ∧
      (m.push u).where_vec_stats = m.where_vec_stats ++ statsInfos u ∧
      ∀ i, (m.push u).where_vec_tags_stats i = m.where_vec_tags_stats i ++ tagsInfos i u := by
  have hname := targetOf_eq_name_iff u.1 u.2.name
  unfold StatMatches.push statsInfos tagsInfos lastName
  cases htarget : targetOf u.1 u.2.name with
  | none =>
    have hne : u.2.name ≠ STATS_NAME_FIELD := fun heq => absurd (hname.mpr heq) (by simp [htarget])
    simp [hne]
  | some target =>
    cases target with
    | name =>
      have heq : u.2.name = STATS_NAME_FIELD := hname.mp htarget
      simp [heq]
    | exact column =>
      have hne : u.2.name ≠ STATS_NAME_FIELD := fun heq =>
        absurd (hname.mpr heq) (by simp [htarget])
      simp [hne, StatMatches.pushStats]
    | contains j =>
      have hne : u.2.name ≠ STATS_NAME_FIELD := fun heq =>
        absurd (hname.mpr heq) (by simp [htarget])
      refine ⟨by simp [hne, StatMatches.pushTags], by simp [StatMatches.pushTags], fun i => ?_⟩
      by_cases hij : j = i
      · subst hij
        simp [StatMatches.pushTags]
      · simp [StatMatches.pushTags, hij, Function.update_of_ne (Ne.symm hij)]

theorem foldl_push (us : List (Usage × StatMatch)) (m : StatMatches) :
    (us.foldl StatMatches.push m).name_match = (lastName us).or m.name_match ∧
      (us.foldl StatMatches.push m).where_vec_stats = m.where_vec_stats ++ us.flatMap statsInfos ∧
      ∀ i, (us.foldl StatMatches.push m).where_vec_tags_stats i =
        m.where_vec_tags_stats i ++ us.flatMap (tagsInfos i) := by
  induction us generalizing m with
  | nil => exact ⟨rfl, by simp, by simp⟩
  | cons u us ih =>
    obtain ⟨hname, hstats, htags⟩ := push_spec m u
    obtain ⟨hnames, hstatss, htagss⟩ := ih (m.push u)
    rw [List.foldl_cons]
    refine ⟨?_, ?_, fun i => ?_⟩
    · rw [hnames, hname, ← Option.or_assoc, ← lastName_append, List.singleton_append]
    · rw [hstatss, hstats, List.flatMap_cons, List.append_assoc]
    · rw [htagss, htags, List.flatMap_cons, List.append_assoc]

/-- The conditions of a match are on a column of its own or on one of the tags columns. -/
theorem mem_conditions_iff (u : Usage × StatMatch) (info : WhereIndexInfo) :
    info ∈ (conditions u.1 u.2).getD [] ↔ info ∈ statsInfos u ∨ ∃ i, info ∈ tagsInfos i u := by
  unfold statsInfos tagsInfos
  cases htarget : targetOf u.1 u.2.name with
  | none => simp [conditions, htarget]
  | some target =>
    cases target with
    | name => simp [conditions, htarget]
    | exact column => simp
    | contains i => simp

theorem conditions_isSome {terms : List StatTerm} {units : List DbQueryUnit}
    (h : orTerm terms = some units) :
    (∀ u ∈ uses terms, (conditions u.1 u.2).isSome = true) ∧
      ∃ cr, nameSlice (lastName (uses terms)) = some cr := by
  unfold orTerm at h
  obtain ⟨_, -, h⟩ := Option.bind_eq_some_iff.mp h
  obtain ⟨m, hm, h⟩ := Option.bind_eq_some_iff.mp h
  obtain ⟨cr, hcr, -⟩ := Option.bind_eq_some_iff.mp h
  obtain ⟨hconditions, hfold⟩ := foldlM_addTerm hm
  obtain ⟨hname, -, -⟩ := foldl_push (uses terms) ⟨none, [], fun _ => []⟩
  rw [← hfold, Option.or_none] at hname
  exact ⟨hconditions, cr, hname ▸ hcr⟩

/-- A row is admitted if its name is in the slice and it meets the conditions of every
match, as long as the tags columns have fewer than 65536 conditions each. -/
theorem admits_iff {terms : List StatTerm} {units : List DbQueryUnit}
    (h : orTerm terms = some units)
    (hfew : ∀ i, ((uses terms).flatMap (tagsInfos i)).length < 2 ^ 16) (T2 : Nat)
    (row : String → Option Text) :
    ∃ cr, nameSlice (lastName (uses terms)) = some cr ∧
      (Admits T2 units row ↔ (∃ name, row "column1" = some name ∧ cr.1 ≤ name ∧ name ≤ cr.2) ∧
        ∀ u ∈ uses terms, ∀ info ∈ (conditions u.1 u.2).getD [],
          (TagPredicate.index info).holds T2 row = true) := by
  unfold orTerm at h
  obtain ⟨_, -, h⟩ := Option.bind_eq_some_iff.mp h
  obtain ⟨m, hm, h⟩ := Option.bind_eq_some_iff.mp h
  obtain ⟨cr, hcr, h⟩ := Option.bind_eq_some_iff.mp h
  obtain rfl := Option.some.inj h
  obtain ⟨-, hfold⟩ := foldlM_addTerm hm
  obtain ⟨hname, hstats, htags⟩ := foldl_push (uses terms) ⟨none, [], fun _ => []⟩
  rw [← hfold] at hname hstats htags
  simp only [Option.or_none, List.nil_append] at hname hstats htags
  rw [hname] at hcr
  refine ⟨cr, hcr, ?_⟩
  have hlength : ∀ vec ∈ [m.where_vec_tags_stats 0, m.where_vec_tags_stats 1,
      m.where_vec_tags_stats 2, m.where_vec_tags_stats 3], vec.length < 2 ^ 16 := by
    simp only [List.forall_mem_cons, List.not_mem_nil, false_implies, implies_true, and_true, htags]
    exact ⟨hfew 0, hfew 1, hfew 2, hfew 3⟩
  -- so few conditions are dealt out to the queries without loss
  have hsplit := (@splitWithoutLoss_dealOut_iff _ m.where_vec_stats _ _).mpr
    (cutOffRepeated_of_length_le (length_le_statsMaxTags hlength))
  rw [← populate_stats_eq] at hsplit
  -- the conditions are those on the base columns and those on the tags
  have hall : (∀ u ∈ uses terms, ∀ info ∈ (conditions u.1 u.2).getD [],
      (TagPredicate.index info).holds T2 row = true) ↔
      (∀ info ∈ m.where_vec_stats, (TagPredicate.index info).holds T2 row = true) ∧
        ∀ i, ∀ info ∈ m.where_vec_tags_stats i, (TagPredicate.index info).holds T2 row = true := by
    simp only [mem_conditions_iff, hstats, htags, List.mem_flatMap]
    constructor
    · intro hall
      exact ⟨fun info hinfo => hinfo.elim fun u hu => hall u hu.1 info (.inl hu.2),
        fun i info hinfo => hinfo.elim fun u hu => hall u hu.1 info (.inr ⟨i, hu.2⟩)⟩
    · rintro ⟨hbase, hlists⟩ u hu info (hinfo | ⟨i, hinfo⟩)
      · exact hbase info ⟨u, hu, hinfo⟩
      · exact hlists i info ⟨u, hu, hinfo⟩
  have hlists : (∀ i, ∀ info ∈ m.where_vec_tags_stats i,
      (TagPredicate.index info).holds T2 row = true) ↔
      ∀ vec ∈ [m.where_vec_tags_stats 0, m.where_vec_tags_stats 1, m.where_vec_tags_stats 2,
        m.where_vec_tags_stats 3], ∀ info ∈ vec, (TagPredicate.index info).holds T2 row = true := by
    simp only [List.forall_mem_cons, List.not_mem_nil, false_implies, implies_true, and_true]
    refine ⟨fun h => ⟨h 0, h 1, h 2, h 3⟩, ?_⟩
    rintro ⟨h0, h1, h2, h3⟩ i
    have hi : i = 0 ∨ i = 1 ∨ i = 2 ∨ i = 3 := by omega
    rcases hi with rfl | rfl | rfl | rfl
    · exact h0
    · exact h1
    · exact h2
    · exact h3
  rw [hall, hlists, ← hsplit.conjunction, Admits, List.forall_mem_map]
  constructor
  · intro hselects
    -- there is a query, and all of them have the one slice
    obtain ⟨where_vec, hmem⟩ := List.exists_mem_of_ne_nil _ hsplit.nonempty
    exact ⟨(hselects where_vec hmem).slice, fun where_vec hmem => (hselects where_vec hmem).indexes⟩
  · rintro ⟨hslice, hindexes⟩ where_vec hmem
    exact ⟨hslice, hindexes where_vec hmem⟩

end TfAnalytics.QueryEngine.StatRanges
