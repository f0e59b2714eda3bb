import TfAnalytics.QueryEngine.StatsGroups

/-!
# Query engine — which entries of a stats query merge

`MergeAggRow` and the second pass of `LoadRow` take values out of `boost::variant`s;
a type they do not expect is a `bad_get`. Whether a value merges is a matter of the two
types alone (`Agrees`), and the merged value has the type of the one that was there. So
an entry always looks like the entry of a single row (`LooksLike`): same key, same
group, the same aggregates with values of the same types.

* `exists_mergeFullRow`: where the entries of some rows merge, so do all entries that
  look like them, and what comes out looks like one of them;
* `loadable_iff`, `RowLoads.finalEntry_isSome_iff`: the assertions of `LoadRow`, and the
  aggregates `MergeFinal` finds, in words of the row;
* `build_slots_free`, `RowLoads.finalEntry_fresh`: the slots of the sorted aggregates
  hold nothing else before `MergeFinal` fills them.
-/

namespace TfAnalytics.QueryEngine

open TfAnalytics.Lib

-- ---------------------------------------------------------------------------
-- Values that merge
-- ---------------------------------------------------------------------------

/-- `QEOpServerProxy::VarType`. -/
inductive VarType where
  | BLANK | STRING | UINT64 | DOUBLE | UUID | TDIGEST | CENTROID | MAP_ELEM | LIST
  deriving DecidableEq

/-- `boost::variant::which`. -/
def StatVal.which {δ : Type} : StatVal δ → VarType
  | .blank => .BLANK
  | .string _ => .STRING
  | .uint64 _ => .UINT64
  | .double _ => .DOUBLE
  | .uuid _ => .UUID
  | .tdigest _ => .TDIGEST
  | .centroid _ => .CENTROID

namespace StatsSelect

variable {δ : Type} [LinearOrder δ] [Numerics δ]

/-- The types of two values that `MergeAggRow` merges without a `bad_get`. -/
def Agrees (op : AggOper) (t nt : VarType) : Prop :=
  match op with
  | .SUM | .MAX | .MIN => t = .UINT64 ∨ t = .DOUBLE → nt = t
  | .COUNT | .COUNT_DISTINCT => t = .UINT64 ∧ nt = .UINT64
  | .AVG => t = .CENTROID → nt = .CENTROID
  | .PERCENTILES => t = .TDIGEST → nt = .TDIGEST
  | .INVALID | .CLASS => True

omit [LinearOrder δ] [Numerics δ] in
theorem numericOp_isSome_iff (fu : Fin (2 ^ 64) → Fin (2 ^ 64) → Fin (2 ^ 64)) (fd : δ → δ → δ)
    (v nv : StatVal δ) : (numericOp fu fd v nv).isSome = true ↔
      (v.which = .UINT64 ∨ v.which = .DOUBLE → nv.which = v.which) := by
  cases v <;> cases nv <;> simp [numericOp, StatVal.which]

omit [LinearOrder δ] [Numerics δ] in
theorem numericOp_which {fu : Fin (2 ^ 64) → Fin (2 ^ 64) → Fin (2 ^ 64)} {fd : δ → δ → δ}
    {v nv r : StatVal δ} (h : numericOp fu fd v nv = some r) : r.which = v.which := by
  cases v <;> cases nv <;> simp only [numericOp, Option.some.injEq, reduceCtorEq] at h <;>
    subst h <;> rfl

theorem mergeVal_isSome_iff (op : AggOper) (v nv : StatVal δ) :
    (mergeVal op v nv).isSome = true ↔ Agrees op v.which nv.which := by
  cases op with
  | SUM | MAX | MIN => exact numericOp_isSome_iff _ _ v nv
  | COUNT | COUNT_DISTINCT | AVG | PERCENTILES | INVALID | CLASS =>
    cases v <;> cases nv <;> simp [mergeVal, StatVal.which, Agrees]

/-- A merged value keeps the type of the value that was there. -/
theorem mergeVal_which {op : AggOper} {v nv r : StatVal δ} (h : mergeVal op v nv = some r) :
    r.which = v.which := by
  cases op with
  | SUM | MAX | MIN => exact numericOp_which h
  | COUNT | COUNT_DISTINCT | AVG | PERCENTILES | INVALID | CLASS =>
    cases v <;> cases nv <;> simp only [mergeVal, Option.some.injEq, reduceCtorEq] at h <;>
      subst h <;> rfl

/-- The values the rows have in common merge. -/
def Mergeable (a b : AggRow δ) : Prop :=
  ∀ k v nv, a.find? k = some v → b.find? k = some nv → Agrees k.oper v.which nv.which

/-- The rows have the same aggregates, with values of the same types. -/
def SameKinds (a b : AggRow δ) : Prop :=
  ∀ k, (a.find? k).map StatVal.which = (b.find? k).map StatVal.which

omit [LinearOrder δ] [Numerics δ] in
theorem SameKinds.exists_find? {a b : AggRow δ} (h : SameKinds a b) {k : AggKey} {v : StatVal δ}
    (hk : a.find? k = some v) : ∃ v', b.find? k = some v' ∧ v'.which = v.which := by
  have hkind := h k
  rw [hk] at hkind
  exact Option.map_eq_some_iff.mp hkind.symm

omit [LinearOrder δ] [Numerics δ] in
theorem SameKinds.isSome_iff {a b : AggRow δ} (h : SameKinds a b) (k : AggKey) :
    (a.find? k).isSome = true ↔ (b.find? k).isSome = true := by
  rw [← Option.isSome_map (f := StatVal.which), h k, Option.isSome_map]

omit [LinearOrder δ] [Numerics δ] in
theorem Mergeable.congr {a a' b b' : AggRow δ} (h : Mergeable a b) (ha : SameKinds a' a)
    (hb : SameKinds b' b) : Mergeable a' b' := by
  intro k v nv hv hnv
  obtain ⟨v₀, hv₀, hwhich⟩ := ha.exists_find? hv
  obtain ⟨nv₀, hnv₀, hnwhich⟩ := hb.exists_find? hnv
  rw [← hwhich, ← hnwhich]
  exact h k v₀ nv₀ hv₀ hnv₀

/-- What comes out of a merge has the aggregates of one of the two rows. -/
theorem exists_mergeAggRow {a b : AggRow δ} (h : Mergeable a b) :
    ∃ r, MergeAggRow a b = some r ∧ (SameKinds r a ∨ SameKinds r b) := by
  by_cases hempty : a.isEmpty = true
  · exact ⟨b, by unfold MergeAggRow; rw [if_pos hempty], .inr fun _ => rfl⟩
  have hmerges : ∀ k v nv, a.find? k = some v → b.find? k = some nv →
      ∃ r, mergeVal k.oper v nv = some r := fun k v nv hv hnv =>
    Option.isSome_iff_exists.mp ((mergeVal_isSome_iff k.oper v nv).mpr (h k v nv hv hnv))
  obtain ⟨r, hr⟩ : ∃ r, MergeAggRow a b = some r := by
    unfold MergeAggRow
    rw [if_neg hempty]
    refine OrderedMap.mapM_isSome fun k v hv => ?_
    cases hnv : b.find? k with
    | none => rfl
    | some nv => exact Option.isSome_iff_exists.mpr (hmerges k v nv hv hnv)
  refine ⟨r, hr, .inl fun k => ?_⟩
  unfold MergeAggRow at hr
  rw [if_neg hempty] at hr
  rw [OrderedMap.find?_mapM hr k]
  cases hv : a.find? k with
  | none => rfl
  | some v =>
    rw [Option.bind_some]
    cases hnv : b.find? k with
    | none => rfl
    | some nv =>
      obtain ⟨r', hr'⟩ := hmerges k v nv hv hnv
      show (mergeVal k.oper v nv).map StatVal.which = some v.which
      rw [hr', Option.map_some, mergeVal_which hr']

/-- `MergeAggRow` aborts on two values whose types do not agree. -/
theorem mergeAggRow_eq_none {a b : AggRow δ} {k : AggKey} {v nv : StatVal δ}
    (hv : a.find? k = some v) (hnv : b.find? k = some nv)
    (h : ¬ Agrees k.oper v.which nv.which) : MergeAggRow a b = none := by
  have hempty : ¬ a.isEmpty = true := by
    intro hempty
    rw [OrderedMap.isEmpty_iff.mp hempty k] at hv
    cases hv
  unfold MergeAggRow
  rw [if_neg hempty]
  refine OrderedMap.mapM_eq_none_of_find? hv ?_
  simp only [hnv]
  rw [← mergeVal_isSome_iff] at h
  simpa using h

-- ---------------------------------------------------------------------------
-- Entries that look like rows
-- ---------------------------------------------------------------------------

abbrev Entry (δ : Type) : Type := SortKey δ × (StatMap δ × AggRow δ)

/-- Same key, same group, same aggregates with values of the same types. -/
structure LooksLike (e e' : Entry δ) : Prop where
  key : e.1 = e'.1
  group : e.2.1 = e'.2.1
  kinds : SameKinds e.2.2 e'.2.2

/-- Every entry looks like one of `P`. -/
def AllLike (P : Entry δ → Prop) (m : MapBuf δ) : Prop :=
  ∀ e ∈ m.entries, ∃ e', P e' ∧ LooksLike e e'

/-- Entries of `P` that come together merge. -/
def Coherent (P : Entry δ → Prop) : Prop :=
  ∀ e e', P e → P e' → e.1 = e'.1 → e.2.1 = e'.2.1 → Mergeable e.2.2 e'.2.2

omit [Numerics δ] in
theorem allLike_empty (P : Entry δ → Prop) : AllLike P (.empty : MapBuf δ) :=
  fun e he => absurd he (by simp [Multimap.empty])

/-- The step lemma. -/
theorem exists_mergeFullRow {P : Entry δ → Prop} (hP : Coherent P) {m : MapBuf δ}
    (hm : AllLike P m) {e e' : Entry δ} (he' : P e') (hlike : LooksLike e e') :
    ∃ m', MergeFullRow e.1 e.2.1 e.2.2 m = some m' ∧ AllLike P m' := by
  refine Multimap.mergeEntry_forall hm ⟨e', he', hlike⟩ ?_
  rintro b₀ ⟨e₀, he₀, hlike₀⟩ hsame
  have hgroup : b₀.1 = e.2.1 := (sameUniks_iff b₀ (e.2.1, e.2.2)).mp hsame
  have hkey : e₀.1 = e'.1 := hlike₀.key.symm.trans hlike.key
  have hgroup₀ : e₀.2.1 = e'.2.1 := by
    rw [← hlike₀.group, ← hlike.group]
    exact hgroup
  obtain ⟨r, hr, hkinds⟩ := exists_mergeAggRow
    ((hP e₀ e' he₀ he' hkey hgroup₀).congr hlike₀.kinds hlike.kinds)
  refine ⟨(b₀.1, r), ?_, ?_⟩
  · show (MergeAggRow b₀.2 e.2.2).map _ = _
    rw [hr]
    rfl
  · rcases hkinds with hkinds | hkinds
    · exact ⟨e₀, he₀, hlike₀.key, hlike₀.group, fun k => (hkinds k).trans (hlike₀.kinds k)⟩
    · exact ⟨e', he', hlike.key, hgroup.trans hlike.group,
        fun k => (hkinds k).trans (hlike.kinds k)⟩

-- ---------------------------------------------------------------------------
-- The entry of a row
-- ---------------------------------------------------------------------------

section Rows

variable (hash_range : StatMap δ → Fin (2 ^ 64)) (S : StatsSelect)

/-- What `LoadRow` makes of a row. -/
def loadedEntry (s : Sample δ) : Entry δ :=
  (keyOf hash_range S (buildUniks S s), contribution hash_range S s)

/-- And what `Merge` makes of that, for the instance and in `MergeFinal`. -/
def foldedEntry (s : Sample δ) : Entry δ := dropDistinct hash_range "" (loadedEntry hash_range S s)

def finalEntry (s : Sample δ) : Entry δ :=
  dropDistinct hash_range S.count_distinct_field_ (foldedEntry hash_range S s)

/-- The group of the row has the column. -/
def HasGroupColumn (s : Sample δ) (n : String) : Prop :=
  (n = STAT_UUID_FIELD ∧ S.unik_cols_.has STAT_UUID_FIELD = true) ∨
  (n = STAT_TIME_FIELD ∧ S.isT_ = true) ∨
  (n = STAT_TIMEBIN_FIELD ∧ S.ts_period_ ≠ 0) ∨
  (S.unik_cols_.has n = true ∧ HasColumn s.row n)

/-- The row has a value for each sort column, the key a slot for it, and the columns
that are averaged are numbers. -/
structure RowLoads (s : Sample δ) : Prop where
  sorted : ∀ e ∈ S.sort_cols_.entries, HasGroupColumn S s e.1 ∧ e.2 ≤ S.hash_slot
  numeric : ∀ it ∈ s.row,
    S.avg_field_.has it.name = true ∨ S.percentile_cols_.has it.name = true →
      it.value.which = .UINT64 ∨ it.value.which = .DOUBLE

/-- The row has each aggregate that is sorted by, the key a slot for it. A
COUNT_DISTINCT comes from the column that is counted. -/
def CarriesSorted (s : Sample δ) : Prop :=
  ∀ e ∈ S.agg_sort_cols_.entries,
    (Contributes S s.row e.1 ∨ (e.1.oper = .COUNT_DISTINCT ∧
      (AggKey.field e.1 = "" ∨ AggKey.field e.1 = S.count_distinct_field_) ∧
      HasGroupColumn S s (AggKey.field e.1))) ∧ e.2 ≤ S.hash_slot

end Rows

-- ---------------------------------------------------------------------------
-- Dropping the counted column
-- ---------------------------------------------------------------------------

section Drop

variable {hash_range : StatMap δ → Fin (2 ^ 64)} {field : String} {e e' : Entry δ}

omit [LinearOrder δ] [Numerics δ] in
theorem dropDistinct_of_none (h : e.2.1.find? field = none) :
    dropDistinct hash_range field e = e := by
  rw [dropDistinct, h]

omit [LinearOrder δ] [Numerics δ] in
theorem dropDistinct_of_some {v : StatVal δ} (h : e.2.1.find? field = some v) :
    dropDistinct hash_range field e =
      (e.1.set (e.1.length - 1) (.uint64 (hash_range (e.2.1.erase field))),
        (e.2.1.erase field, e.2.2.insert (aggkey .COUNT_DISTINCT field) (.uint64 1))) := by
  rw [dropDistinct, h]

omit [LinearOrder δ] [Numerics δ] in
/-- The new key and group depend on the old ones alone. -/
theorem dropDistinct_head (hkey : e.1 = e'.1) (hgroup : e.2.1 = e'.2.1) :
    (dropDistinct hash_range field e).1 = (dropDistinct hash_range field e').1 ∧
      (dropDistinct hash_range field e).2.1 = (dropDistinct hash_range field e').2.1 := by
  cases hfind : e.2.1.find? field with
  | none =>
    rw [dropDistinct_of_none hfind, dropDistinct_of_none (hgroup ▸ hfind)]
    exact ⟨hkey, hgroup⟩
  | some v =>
    rw [dropDistinct_of_some hfind, dropDistinct_of_some (hgroup ▸ hfind), hkey, hgroup]
    exact ⟨rfl, rfl⟩

omit [LinearOrder δ] [Numerics δ] in
theorem dropDistinct_find? (k : AggKey) :
    (dropDistinct hash_range field e).2.2.find? k =
      (e.2.2.find? k).or
        (if k = aggkey .COUNT_DISTINCT field ∧ (e.2.1.find? field).isSome = true
          then some (.uint64 1) else none) := by
  cases hfind : e.2.1.find? field with
  | none =>
    rw [dropDistinct_of_none hfind]
    simp
  | some v =>
    rw [dropDistinct_of_some hfind, OrderedMap.find?_insert]
    by_cases hk : k = aggkey .COUNT_DISTINCT field
    · subst hk
      cases e.2.2.find? (aggkey .COUNT_DISTINCT field) <;> simp
    · simp [hk]

omit [LinearOrder δ] [Numerics δ] in
theorem dropDistinct_group (n : String) :
    (dropDistinct hash_range field e).2.1.find? n =
      if n = field then none else e.2.1.find? n := by
  cases hfind : e.2.1.find? field with
  | none =>
    rw [dropDistinct_of_none hfind]
    split
    · rename_i hn
      rw [hn, hfind]
    · rfl
  | some v => rw [dropDistinct_of_some hfind, OrderedMap.find?_erase]

omit [LinearOrder δ] [Numerics δ] in
theorem LooksLike.dropDistinct (h : LooksLike e e') :
    LooksLike (dropDistinct hash_range field e) (dropDistinct hash_range field e') := by
  obtain ⟨hkey, hgroup⟩ := @dropDistinct_head _ hash_range field e e' h.key h.group
  refine ⟨hkey, hgroup, fun k => ?_⟩
  rw [dropDistinct_find?, dropDistinct_find?, h.group, Option.map_or, Option.map_or, h.kinds k]

end Drop

-- ---------------------------------------------------------------------------
-- What a row loads
-- ---------------------------------------------------------------------------

/-- The types of the aggregates that do not take a value as it is. -/
def KindOf (op : AggOper) (t : VarType) : Prop :=
  match op with
  | .COUNT | .COUNT_DISTINCT => t = .UINT64
  | .AVG => t = .CENTROID
  | .PERCENTILES => t = .TDIGEST
  | .INVALID | .SUM | .CLASS | .MAX | .MIN => True

def AggKinds (a : AggRow δ) : Prop := ∀ k v, a.find? k = some v → KindOf k.oper v.which

omit [LinearOrder δ] [Numerics δ] in
/-- Only the numbers that are taken as they are can fail to agree. -/
theorem mergeable_of_kinded {a b : AggRow δ} (ha : AggKinds a) (hb : AggKinds b)
    (h : ∀ k v nv, k.oper = .SUM ∨ k.oper = .MAX ∨ k.oper = .MIN → a.find? k = some v →
      b.find? k = some nv → v.which = .UINT64 ∨ v.which = .DOUBLE → nv.which = v.which) :
    Mergeable a b := by
  intro k v nv hv hnv
  have hkv := ha k v hv
  have hknv := hb k nv hnv
  have hnum := h k v nv
  unfold Agrees
  revert hkv hknv hnum
  cases k.oper with
  | SUM | MAX | MIN => exact fun _ _ hnum => hnum (by decide) hv hnv
  | COUNT | COUNT_DISTINCT => exact fun hkv hknv _ => ⟨hkv, hknv⟩
  | AVG | PERCENTILES => exact fun _ hknv _ _ => hknv
  | INVALID | CLASS => exact fun _ _ _ => trivial

section RowEntries

variable {hash_range : StatMap δ → Fin (2 ^ 64)} {S : StatsSelect} {s : Sample δ}

omit [LinearOrder δ] [Numerics δ] in
theorem find?_buildUniks_isSome_iff (n : String) :
    ((buildUniks S s).find? n).isSome = true ↔ HasGroupColumn S s n := by
  rw [buildUniks, OrderedMap.find?_ofList, findList_isSome_iff]
  simp only [unikPairs, List.mem_append, List.mem_ite_nil_right, List.mem_singleton, List.mem_map,
    List.mem_filter, Prod.mk.injEq]
  constructor
  · rintro ⟨v, ((⟨hhas, rfl, -⟩ | ⟨hT, rfl, -⟩) | ⟨hts, rfl, -⟩) | ⟨it, ⟨hit, hhas⟩, rfl, -⟩⟩
    · exact .inl ⟨rfl, hhas⟩
    · exact .inr (.inl ⟨rfl, hT⟩)
    · exact .inr (.inr (.inl ⟨rfl, hts⟩))
    · exact .inr (.inr (.inr ⟨hhas, it, hit, rfl⟩))
  · rintro (⟨rfl, hhas⟩ | ⟨rfl, hT⟩ | ⟨rfl, hts⟩ | ⟨hhas, it, hit, rfl⟩)
    · exact ⟨_, .inl (.inl (.inl ⟨hhas, rfl, rfl⟩))⟩
    · exact ⟨_, .inl (.inl (.inr ⟨hT, rfl, rfl⟩))⟩
    · exact ⟨_, .inl (.inr ⟨hts, rfl, rfl⟩)⟩
    · exact ⟨_, .inr ⟨it, ⟨hit, hhas⟩, rfl, rfl⟩⟩

omit [LinearOrder δ] in
theorem asDouble_isSome_iff (v : StatVal δ) :
    (asDouble v).isSome = true ↔ v.which = .UINT64 ∨ v.which = .DOUBLE := by
  cases v <;> simp [asDouble, StatVal.which]

omit [LinearOrder δ] in
theorem doublePair_isSome_iff (has : Bool) (op : AggOper) (start : δ → StatVal δ)
    (it : StatEntry δ) : (doublePair has op start it).isSome = true ↔
      (has = true → it.value.which = .UINT64 ∨ it.value.which = .DOUBLE) := by
  rw [doublePair, ← asDouble_isSome_iff]
  cases has <;> simp

omit [LinearOrder δ] in
theorem otherAggs_isSome_iff (it : StatEntry δ) : (otherAggs S it).isSome = true ↔
    (S.avg_field_.has it.name = true ∨ S.percentile_cols_.has it.name = true →
      it.value.which = .UINT64 ∨ it.value.which = .DOUBLE) := by
  have havg := doublePair_isSome_iff (S.avg_field_.has it.name) .AVG
    (fun d => .centroid [toLex (d, 1)]) it
  have hpct := doublePair_isSome_iff (S.percentile_cols_.has it.name) .PERCENTILES
    (fun d => .tdigest [toLex (d, 1)]) it
  rw [or_imp, ← havg, ← hpct]
  unfold otherAggs
  cases doublePair (S.avg_field_.has it.name) .AVG (fun d => .centroid [toLex (d, 1)]) it with
  | none => simp
  | some avg =>
    cases doublePair (S.percentile_cols_.has it.name) .PERCENTILES
        (fun d => .tdigest [toLex (d, 1)]) it with
    | none => simp
    | some pct => simp

omit [LinearOrder δ] in
theorem buildAggs_isSome_iff (u : StatMap δ) (row : List (StatEntry δ)) :
    (buildAggs hash_range S u row).isSome = true ↔
      ∀ it ∈ row, S.avg_field_.has it.name = true ∨ S.percentile_cols_.has it.name = true →
        it.value.which = .UINT64 ∨ it.value.which = .DOUBLE := by
  have hcollect := collectM_isSome_iff (f := otherAggs S) (l := row)
  simp only [otherAggs_isSome_iff] at hcollect
  rw [← hcollect]
  unfold buildAggs
  cases collectM (otherAggs S) row <;> simp

omit [LinearOrder δ] in
/-- The assertions of `LoadRow` on a row, in words of the row. -/
theorem loadable_iff : Loadable hash_range S s ↔ RowLoads S s := by
  have hkey : (buildKey hash_range S (buildUniks S s)).isSome = true ↔
      ∀ e ∈ S.sort_cols_.entries, HasGroupColumn S s e.1 ∧ e.2 ≤ S.hash_slot := by
    rw [buildKey_isSome_iff]
    refine forall₂_congr fun e _ => ?_
    rw [find?_buildUniks_isSome_iff]
  unfold Loadable
  rw [hkey, buildAggs_isSome_iff]
  exact ⟨fun h => ⟨h.1, h.2⟩, fun h => ⟨h.sorted, h.numeric⟩⟩

omit [LinearOrder δ] in
theorem RowLoads.loadsAs (h : RowLoads S s) :
    LoadsAs (fun k v => KindOf k.oper (StatVal.which v)) S s.row where
  plain it _ op hex hop := by
    show KindOf op _
    cases op with
    | SUM | MAX | MIN => trivial
    | COUNT | COUNT_DISTINCT => cases hop
    | INVALID | CLASS | PERCENTILES | AVG => cases hex
  double it hit op hex hop := by
    rw [asDouble_isSome_iff]
    cases op with
    | AVG => exact h.numeric it hit (.inl hop)
    | PERCENTILES => exact h.numeric it hit (.inr hop)
    | INVALID | CLASS => cases hop
    | SUM | COUNT | MAX | MIN | COUNT_DISTINCT => cases hex
  centroid _ _ := rfl
  tdigest _ _ := rfl
  hash _ _ := trivial
  count _ _ := rfl

omit [LinearOrder δ] in
/-- The aggregates of the entry of a row. -/
theorem RowLoads.contribution_spec (h : RowLoads S s) :
    AggKinds (contribution hash_range S s).2 ∧
      ∀ k, ((contribution hash_range S s).2.find? k).isSome = true ↔ Contributes S s.row k := by
  obtain ⟨a, ha, hkinds, hkeys⟩ := buildAggs_spec hash_range (buildUniks S s) h.loadsAs
  unfold contribution
  rw [ha]
  exact ⟨hkinds, hkeys⟩

omit [LinearOrder δ] [Numerics δ] in
theorem AggKinds.dropDistinct {e : Entry δ} (h : AggKinds e.2.2) (field : String) :
    AggKinds (dropDistinct hash_range field e).2.2 := by
  intro k v hv
  rw [dropDistinct_find?] at hv
  rcases Option.or_eq_some_iff.mp hv with hv | ⟨-, hv⟩
  · exact h k v hv
  · split at hv
    · rename_i hk
      obtain rfl := Option.some.inj hv
      rw [hk.1]
      rfl
    · cases hv

omit [LinearOrder δ] [Numerics δ] in
/-- Aggregates other than counts stay as they were. -/
theorem dropDistinct_find?_of_ne {e : Entry δ} {k : AggKey} (hk : k.oper ≠ .COUNT_DISTINCT)
    (field : String) : (dropDistinct hash_range field e).2.2.find? k = e.2.2.find? k := by
  rw [dropDistinct_find?, if_neg, Option.or_none]
  rintro ⟨rfl, -⟩
  exact hk rfl

omit [LinearOrder δ] in
theorem RowLoads.finalEntry_isSome_iff (h : RowLoads S s) (k : AggKey) :
    ((finalEntry hash_range S s).2.2.find? k).isSome = true ↔
      Contributes S s.row k ∨ (k.oper = .COUNT_DISTINCT ∧
        (AggKey.field k = "" ∨ AggKey.field k = S.count_distinct_field_) ∧
        HasGroupColumn S s (AggKey.field k)) := by
  have hdrop : ∀ (field : String) (e : Entry δ),
      ((dropDistinct hash_range field e).2.2.find? k).isSome = true ↔
        (e.2.2.find? k).isSome = true ∨
          (k = aggkey .COUNT_DISTINCT field ∧ (e.2.1.find? field).isSome = true) := by
    intro field e
    rw [dropDistinct_find?, Option.isSome_or, Bool.or_eq_true]
    refine or_congr_right ?_
    split
    · rename_i hk
      exact ⟨fun _ => hk, fun _ => rfl⟩
    · rename_i hk
      exact ⟨fun hsome => absurd hsome (by simp), fun hboth => absurd hboth hk⟩
  have hkey : ∀ field, k = aggkey .COUNT_DISTINCT field ↔
      k.oper = .COUNT_DISTINCT ∧ AggKey.field k = field := by
    intro field
    exact @aggkey_eq_iff k.oper .COUNT_DISTINCT (AggKey.field k) field
  have hgroup : (loadedEntry hash_range S s).2.1 = buildUniks S s := rfl
  have haggs : (loadedEntry hash_range S s).2.2 = (contribution hash_range S s).2 := rfl
  rw [finalEntry, hdrop, foldedEntry, hdrop, dropDistinct_group, hkey, hkey, hgroup, haggs,
    h.contribution_spec.2, find?_buildUniks_isSome_iff, or_assoc]
  refine or_congr_right ⟨?_, ?_⟩
  · rintro (⟨⟨hop, hf⟩, hcol⟩ | ⟨⟨hop, hf⟩, hcol⟩)
    · exact ⟨hop, .inl hf, hf ▸ hcol⟩
    · refine ⟨hop, .inr hf, ?_⟩
      split at hcol
      · cases hcol
      · rw [hf, ← find?_buildUniks_isSome_iff]
        exact hcol
  · rintro ⟨hop, hf, hcol⟩
    by_cases hblank : AggKey.field k = ""
    · exact .inl ⟨⟨hop, hblank⟩, hblank ▸ hcol⟩
    · have hf : AggKey.field k = S.count_distinct_field_ := hf.resolve_left hblank
      refine .inr ⟨⟨hop, hf⟩, ?_⟩
      rw [if_neg (hf ▸ hblank), find?_buildUniks_isSome_iff, ← hf]
      exact hcol

-- ---------------------------------------------------------------------------
-- Keys of the entries
-- ---------------------------------------------------------------------------

/-- The slot is as in a key that was not written to. -/
def FreshAt (hash_range : StatMap δ → Fin (2 ^ 64)) (S : StatsSelect) (e : Entry δ) (i : Nat) :
    Prop :=
  e.1[i]? = (freshKey hash_range S e.2.1)[i]?

omit [LinearOrder δ] [Numerics δ] in
theorem freshKey_getElem?_of_ne {i : Nat} (hi : i ≠ S.hash_slot) (u u' : StatMap δ) :
    (freshKey hash_range S u)[i]? = (freshKey hash_range S u')[i]? := by
  rcases Nat.lt_or_ge i S.hash_slot with hlt | hge
  · unfold freshKey
    rw [List.getElem?_append_left (by simpa using hlt),
      List.getElem?_append_left (by simpa using hlt)]
  · have hlen : ∀ u : StatMap δ, (freshKey hash_range S u).length ≤ i := by
      intro u
      simp only [freshKey, List.length_append, List.length_replicate, List.length_singleton]
      omega
    rw [List.getElem?_eq_none (hlen u), List.getElem?_eq_none (hlen u')]

omit [LinearOrder δ] [Numerics δ] in
theorem dropDistinct_length (field : String) (e : Entry δ) :
    (dropDistinct hash_range field e).1.length = e.1.length := by
  cases hfind : e.2.1.find? field with
  | none => rw [dropDistinct_of_none hfind]
  | some v =>
    rw [dropDistinct_of_some hfind]
    exact List.length_set

omit [LinearOrder δ] [Numerics δ] in
/-- `Merge` takes the hash anew with the group. -/
theorem FreshAt.dropDistinct {e : Entry δ} {i : Nat} (hlen : e.1.length = S.hash_slot + 1)
    (h : FreshAt hash_range S e i) (field : String) :
    FreshAt hash_range S (dropDistinct hash_range field e) i := by
  unfold FreshAt at *
  cases hfind : e.2.1.find? field with
  | none =>
    rw [dropDistinct_of_none hfind]
    exact h
  | some v =>
    rw [dropDistinct_of_some hfind]
    show (e.1.set (e.1.length - 1) _)[i]? = (freshKey hash_range S (e.2.1.erase field))[i]?
    have hlast : e.1.length - 1 = S.hash_slot := by omega
    rw [hlast]
    by_cases hi : i = S.hash_slot
    · subst hi
      rw [List.getElem?_set_self (by omega)]
      simp [freshKey]
    · rw [List.getElem?_set_ne (Ne.symm hi), h]
      exact freshKey_getElem?_of_ne hi _ _

omit [LinearOrder δ] in
theorem RowLoads.buildKey_eq (h : RowLoads S s) :
    buildKey hash_range S (buildUniks S s) = some (loadedEntry hash_range S s).1 :=
  buildKey_eq_keyOf hash_range S (loadable_iff.mpr h).1

omit [LinearOrder δ] in
theorem RowLoads.finalEntry_length (h : RowLoads S s) :
    (finalEntry hash_range S s).1.length = S.hash_slot + 1 := by
  rw [finalEntry, dropDistinct_length, foldedEntry, dropDistinct_length]
  exact buildKey_length hash_range S h.buildKey_eq

omit [LinearOrder δ] in
theorem RowLoads.finalEntry_fresh (h : RowLoads S s) {i : Nat}
    (hi : ∀ e ∈ S.sort_cols_.entries, e.2 ≠ i) :
    FreshAt hash_range S (finalEntry hash_range S s) i := by
  have hlen : (loadedEntry hash_range S s).1.length = S.hash_slot + 1 :=
    buildKey_length hash_range S h.buildKey_eq
  have hloaded : FreshAt hash_range S (loadedEntry hash_range S s) i :=
    fillSlots_getElem?_of_not_mem h.buildKey_eq hi
  exact (hloaded.dropDistinct hlen "").dropDistinct ((dropDistinct_length _ _).trans hlen) _

end RowEntries

-- ---------------------------------------------------------------------------
-- Slots of the sorted aggregates
-- ---------------------------------------------------------------------------

/-- No sort column has the slot of a sorted aggregate. -/
def AggSlotsFree (S : StatsSelect) : Prop :=
  ∀ e ∈ S.sort_cols_.entries, ∀ e' ∈ S.agg_sort_cols_.entries, e.2 ≠ e'.2

/-- The slots given out so far are below the next position, those of the columns
apart from those of the aggregates. -/
structure SlotsApart (S : StatsSelect) (st : Nat) : Prop where
  cols : ∀ e ∈ S.sort_cols_.entries, e.2 < st
  aggs : ∀ e ∈ S.agg_sort_cols_.entries, e.2 < st
  free : AggSlotsFree S

theorem SlotsApart.insertCol {S : StatsSelect} {st : Nat} (h : SlotsApart S st) (name : String) :
    SlotsApart { S with sort_cols_ := S.sort_cols_.insert name st } (st + 1) where
  cols e he := by
    rcases mem_insertList he with rfl | he
    · exact Nat.lt_succ_self st
    · exact Nat.lt_succ_of_lt (h.cols e he)
  aggs e he := Nat.lt_succ_of_lt (h.aggs e he)
  free e he e' he' := by
    rcases mem_insertList he with rfl | he
    · exact (Nat.ne_of_lt (h.aggs e' he')).symm
    · exact h.free e he e' he'

theorem SlotsApart.insertAgg {S : StatsSelect} {st : Nat} (h : SlotsApart S st) (k : AggKey) :
    SlotsApart { S with agg_sort_cols_ := S.agg_sort_cols_.insert k st } (st + 1) where
  cols e he := Nat.lt_succ_of_lt (h.cols e he)
  aggs e he := by
    rcases mem_insertList he with rfl | he
    · exact Nat.lt_succ_self st
    · exact Nat.lt_succ_of_lt (h.aggs e he)
  free e he e' he' := by
    rcases mem_insertList he' with rfl | he'
    · exact Nat.ne_of_lt (h.cols e he)
    · exact h.free e he e' he'

theorem addFields_aggSort {S S' : StatsSelect} {fields : List String}
    (h : addFields S fields = some S') : S'.agg_sort_cols_ = S.agg_sort_cols_ := by
  refine addFields_invariant (P := fun S' => S'.agg_sort_cols_ = S.agg_sort_cols_) ?_
    (fun _ hS => hS) rfl h
  intro S₁ S₂ field hS₁ hadd
  rcases addField_cases hadd with ⟨-, -, rfl⟩ | ⟨-, -, period, -, rfl⟩ | ⟨-, hadds⟩
  · exact hS₁
  · exact hS₁
  · exact hadds.agg_sort_cols.trans hS₁

theorem build_slots_free {known : String → Bool} {select_fields sort_fields : List String}
    {S : StatsSelect} (h : build known select_fields sort_fields = some S) : AggSlotsFree S := by
  obtain ⟨S₀, hS₀, hS⟩ := Option.bind_eq_some_iff.mp h
  have hnone : S₀.agg_sort_cols_ = .empty := addFields_aggSort hS₀
  unfold SetSortOrder at hS
  cases sort_fields with
  | nil =>
    simp only [setSortFields, List.length_nil, ne_eq, not_true_eq_false, if_false,
      Option.some.injEq] at hS
    subst hS
    intro e _ e' he'
    rw [hnone] at he'
    exact absurd he' (by simp [OrderedMap.empty])
  | cons name rest =>
    have hstart : SlotsApart { S₀ with sort_cols_ := .empty } 0 := by
      refine ⟨fun e he => ?_, fun e he => ?_, fun e he => ?_⟩
      · exact absurd he (by simp [OrderedMap.empty])
      · rw [show _ = OrderedMap.empty from hnone] at he
        exact absurd he (by simp [OrderedMap.empty])
      · exact absurd he (by simp [OrderedMap.empty])
    obtain ⟨_, hapart⟩ := setSortFields_invariant (P := SlotsApart)
      (fun _ _ name h => h.insertCol name) (fun _ _ k h => h.insertAgg k) hstart hS
    exact hapart.free

end StatsSelect

end TfAnalytics.QueryEngine
