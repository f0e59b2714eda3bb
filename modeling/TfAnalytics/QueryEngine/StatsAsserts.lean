import TfAnalytics.QueryEngine.StatsEntries
import TfAnalytics.QueryEngine.ResultLimit

/-!
# Query engine — the assertions on the way of a stats row

`LoadRow` asserts that a row has every sort column, `MergeFinal` that an entry has
every aggregate it is sorted by, and the `bad_get`s of `LoadRow` and `MergeAggRow`
end in `QE_ASSERT(0)`. What `QueryPrepare` checks (`Accepted`) is the text of the
query: a sort field has to be one of the select fields. A select field need not be
in every row.

`execQuery` is a whole query, from the rows of its chunks to the final merge. As every
entry on its way looks like the entry of a single row, the rows one by one and two by
two say whether a run can abort.

* `SafeRows.neverAborts`: the run lemma;
* `never_aborts_iff`: exactly when no run over some rows aborts.

`none` is a failed assertion, or a slot past the end of the key. A repeated sort
field can put a later one there.
-/

namespace TfAnalytics.QueryEngine

open TfAnalytics.Lib

-- ---------------------------------------------------------------------------
-- Accepted queries
-- ---------------------------------------------------------------------------

def SELECT_PACKETS : String := "packets"
def SELECT_BYTES : String := "bytes"
def SELECT_SUM_PACKETS : String := "SUM(packets)"
def SELECT_SUM_BYTES : String := "SUM(bytes)"

/-- `AnalyticsQuery::is_valid_sort_field`. -/
def is_valid_sort_field (select_column_fields : List String) (sort_field : String) : Bool :=
  if sort_field = SELECT_PACKETS ∨ sort_field = SELECT_BYTES ∨ sort_field = SELECT_SUM_PACKETS ∨
      sort_field = SELECT_SUM_BYTES then true
  else select_column_fields.contains sort_field

/-- Whether `get_column_field_datatype` has a type for a column of a stat table. -/
def hasDatatype (get_column_desc : String → VarType) (column_field : String) : Bool :=
  match get_column_desc column_field with
  | .STRING | .UINT64 | .DOUBLE => true
  | _ => false

/-- What `PostProcessingQuery` checks of a sort field. `schema` is `get_column_desc`
when the table is a static stat table; `none` is a throw of `ParseAgg`. -/
def acceptsSortField (schema : Option (String → VarType)) (select_column_fields : List String)
    (sort_str : String) : Option Bool :=
  match schema with
  | none => some (is_valid_sort_field select_column_fields sort_str)
  | some get_column_desc =>
    (ParseAgg sort_str "").map fun (agg, sfield) =>
      hasDatatype get_column_desc (if agg ≠ .INVALID then sfield else sort_str) &&
        is_valid_sort_field select_column_fields sort_str

/-- What `SetSortOrder` asks of a column. -/
def knownColumn (schema : Option (String → VarType)) (sfield : String) : Bool :=
  match schema with
  | none => true
  | some get_column_desc => get_column_desc sfield ≠ .BLANK

namespace StatsSelect

/-- `QueryPrepare` accepts the query: its SELECT makes `S`, its SORT passes the checks. -/
structure Accepted (schema : Option (String → VarType))
    (select_column_fields sort_fields : List String) (S : StatsSelect) : Prop where
  built : build (knownColumn schema) select_column_fields sort_fields = some S
  status : S.status_ = true
  sorts : ∀ f ∈ sort_fields, acceptsSortField schema select_column_fields f = some true

-- ---------------------------------------------------------------------------
-- A whole query
-- ---------------------------------------------------------------------------

variable {δ : Type} [LinearOrder δ] [Numerics δ]

section Run

variable (hash_range : StatMap δ → Fin (2 ^ 64)) (S : StatsSelect) (table : String) (limit : Nat)
  (filter : StatMap δ → Bool)

/-- `SelectQuery::process_query` and `PostProcessingQuery::process_query` on a chunk. -/
def execChunk (rows : List (Sample δ)) : Option (MapBuf δ) :=
  (loadChunk hash_range S rows).map (process_query table limit filter)

/-- The chunks of an instance, folded one after the other. -/
def execInstance (chunks : List (List (Sample δ))) : Option (MapBuf δ) :=
  (chunks.mapM (execChunk hash_range S table limit filter)).bind
    (mapFolding hash_range S limit S.IsMergeNeeded).foldAll

/-- All instances, and what is done with their results. -/
def execQuery (plan : List (List (List (Sample δ)))) : Option (MapBuf δ) :=
  (plan.mapM (execInstance hash_range S table limit filter)).bind fun results =>
    ((mapFolding hash_range S limit S.IsMergeNeeded).merge true results).map Prod.snd

/-- No run of the query over rows of `D` aborts, whatever their number, their order
and their chunks. -/
def NeverAborts (D : Sample δ → Prop) : Prop :=
  ∀ plan, (∀ chunks ∈ plan, ∀ rows ∈ chunks, ∀ s ∈ rows, D s) →
    execQuery hash_range S table limit filter plan ≠ none

end Run

-- ---------------------------------------------------------------------------
-- Safe rows
-- ---------------------------------------------------------------------------

section Rows

variable (hash_range : StatMap δ → Fin (2 ^ 64)) (S : StatsSelect)

/-- The rows come to one entry: they are of one group, or dropping the counted column
makes their groups one. -/
def Meet (filter : StatMap δ → Bool) (s s' : Sample δ) : Prop :=
  buildUniks S s = buildUniks S s' ∨
  (S.IsMergeNeeded = true ∧ filter (buildUniks S s) = true ∧ filter (buildUniks S s') = true ∧
    (finalEntry hash_range S s).1 = (finalEntry hash_range S s').1 ∧
    (finalEntry hash_range S s).2.1 = (finalEntry hash_range S s').2.1)

/-- Each row of `D` loads, rows that come to one entry have numbers of one type where
these are added or compared, and rows that come to `MergeFinal` have the aggregates
that are sorted by. -/
structure SafeRows (filter : StatMap δ → Bool) (D : Sample δ → Prop) : Prop where
  loads : ∀ s, D s → RowLoads S s
  agree : ∀ s s', D s → D s' → Meet hash_range S filter s s' →
    ∀ op f, op = .SUM ∨ op = .MAX ∨ op = .MIN → opCols S op f = true →
      ∀ v v', columnValue s.row f = some v → columnValue s'.row f = some v' →
        v.which = .UINT64 ∨ v.which = .DOUBLE → v'.which = v.which
  carries : S.IsMergeNeeded = true → ∀ s, D s → filter (buildUniks S s) = true →
    CarriesSorted S s

end Rows

-- ---------------------------------------------------------------------------
-- Safe rows are coherent
-- ---------------------------------------------------------------------------

section Coherence

variable {hash_range : StatMap δ → Fin (2 ^ 64)} {S : StatsSelect} {s s' : Sample δ}

/-- The aggregates of the row, and counts of distinct values. -/
structure HoldsRow (hash_range : StatMap δ → Fin (2 ^ 64)) (S : StatsSelect) (s : Sample δ)
    (a : AggRow δ) : Prop where
  kinded : AggKinds a
  find : ∀ k, k.oper ≠ .COUNT_DISTINCT → a.find? k = (contribution hash_range S s).2.find? k

omit [LinearOrder δ] in
theorem HoldsRow.dropDistinct {e : Entry δ} (h : HoldsRow hash_range S s e.2.2) (field : String) :
    HoldsRow hash_range S s (dropDistinct hash_range field e).2.2 where
  kinded := h.kinded.dropDistinct field
  find k hk := (dropDistinct_find?_of_ne hk field).trans (h.find k hk)

omit [LinearOrder δ] in
theorem RowLoads.holdsRow (h : RowLoads S s) :
    HoldsRow hash_range S s (loadedEntry hash_range S s).2.2 :=
  ⟨h.contribution_spec.1, fun _ _ => rfl⟩

variable {filter : StatMap δ → Bool} {D : Sample δ → Prop}

omit [LinearOrder δ] in
theorem SafeRows.mergeable (h : SafeRows hash_range S filter D) (hs : D s) (hs' : D s')
    (hmeet : Meet hash_range S filter s s') {a b : AggRow δ} (ha : HoldsRow hash_range S s a)
    (hb : HoldsRow hash_range S s' b) : Mergeable a b := by
  refine mergeable_of_kinded ha.kinded hb.kinded ?_
  intro k v nv hop hv hnv
  have hne : k.oper ≠ .COUNT_DISTINCT := by
    rcases hop with hop | hop | hop <;> rw [hop] <;> decide
  rw [ha.find k hne] at hv
  rw [hb.find k hne] at hnv
  have hcols : opCols S k.oper (AggKey.field k) = true := by
    rcases ((h.loads s hs).contribution_spec.2 k).mp (by rw [hv]; rfl) with
      ⟨hcols, -⟩ | ⟨hclass, -⟩ | ⟨hcount, -⟩
    · exact hcols
    · rw [hclass] at hop
      exact absurd hop (by decide)
    · rw [hcount] at hop
      exact absurd hop (by decide)
  have hcolumn : ∀ {t : Sample δ}, D t →
      (contribution hash_range S t).2.find? k = columnValue t.row (AggKey.field k) :=
    fun ht => contribution_find?_of_loadsAs hop hcols (h.loads _ ht).loadsAs
  rw [hcolumn hs] at hv
  rw [hcolumn hs'] at hnv
  exact h.agree s s' hs hs' hmeet _ _ hop hcols v nv hv hnv

/-- The entries `make` makes of the rows of `E`. -/
def EntryOf (make : Sample δ → Entry δ) (E : Sample δ → Prop) (e : Entry δ) : Prop :=
  ∃ s, E s ∧ make s = e

/-- The rows whose entries pass the filter. -/
def Passing (S : StatsSelect) (filter : StatMap δ → Bool) (D : Sample δ → Prop) (s : Sample δ) :
    Prop :=
  D s ∧ filter (buildUniks S s) = true

omit [LinearOrder δ] in
theorem SafeRows.coherent_loaded (h : SafeRows hash_range S filter D) :
    Coherent (EntryOf (loadedEntry hash_range S) D) := by
  rintro e e' ⟨s, hs, rfl⟩ ⟨s', hs', rfl⟩ - hgroup
  exact h.mergeable hs hs' (.inl hgroup) (h.loads s hs).holdsRow (h.loads s' hs').holdsRow

omit [LinearOrder δ] in
theorem SafeRows.coherent_folded (h : SafeRows hash_range S filter D)
    (hmerge : S.IsMergeNeeded = true) :
    Coherent (EntryOf (foldedEntry hash_range S) (Passing S filter D)) := by
  rintro e e' ⟨s, hs, rfl⟩ ⟨s', hs', rfl⟩ hkey hgroup
  obtain ⟨hkey', hgroup'⟩ :=
    @dropDistinct_head _ hash_range S.count_distinct_field_ _ _ hkey hgroup
  exact h.mergeable hs.1 hs'.1 (.inr ⟨hmerge, hs.2, hs'.2, hkey', hgroup'⟩)
    ((h.loads s hs.1).holdsRow.dropDistinct _) ((h.loads s' hs'.1).holdsRow.dropDistinct _)

omit [LinearOrder δ] in
theorem SafeRows.coherent_final (h : SafeRows hash_range S filter D)
    (hmerge : S.IsMergeNeeded = true) :
    Coherent (EntryOf (finalEntry hash_range S) (Passing S filter D)) := by
  rintro e e' ⟨s, hs, rfl⟩ ⟨s', hs', rfl⟩ hkey hgroup
  exact h.mergeable hs.1 hs'.1 (.inr ⟨hmerge, hs.2, hs'.2, hkey, hgroup⟩)
    (((h.loads s hs.1).holdsRow.dropDistinct _).dropDistinct _)
    (((h.loads s' hs'.1).holdsRow.dropDistinct _).dropDistinct _)

/-- What the second loop of `MergeFinal` makes of the entry of a row: other keys in the
slots of the sorted aggregates. -/
def Rekeyed (hash_range : StatMap δ → Fin (2 ^ 64)) (S : StatsSelect) (E : Sample δ → Prop)
    (e : Entry δ) : Prop :=
  ∃ s, E s ∧ e.2 = (finalEntry hash_range S s).2 ∧
    ∀ i, (∀ x ∈ S.agg_sort_cols_.entries, x.2 ≠ i) → e.1[i]? = (finalEntry hash_range S s).1[i]?

omit [LinearOrder δ] in
/-- With the slots of the aggregates apart, entries that come together now had one key
before. -/
theorem SafeRows.coherent_rekeyed (h : SafeRows hash_range S filter D)
    (hmerge : S.IsMergeNeeded = true) (hfree : AggSlotsFree S) :
    Coherent (Rekeyed hash_range S (Passing S filter D)) := by
  rintro e e' ⟨s, hs, heq, hkeep⟩ ⟨s', hs', heq', hkeep'⟩ hkey hgroup
  rw [heq, heq'] at hgroup
  have hfinal : (finalEntry hash_range S s).1 = (finalEntry hash_range S s').1 := by
    refine List.ext_getElem? fun i => ?_
    by_cases hi : ∀ x ∈ S.agg_sort_cols_.entries, x.2 ≠ i
    · rw [← hkeep i hi, ← hkeep' i hi, hkey]
    · push Not at hi
      obtain ⟨x, hx, rfl⟩ := hi
      have hcols : ∀ c ∈ S.sort_cols_.entries, c.2 ≠ x.2 := fun c hc => hfree c hc x hx
      have hfresh : FreshAt hash_range S (finalEntry hash_range S s) x.2 :=
        (h.loads s hs.1).finalEntry_fresh hcols
      have hfresh' : FreshAt hash_range S (finalEntry hash_range S s') x.2 :=
        (h.loads s' hs'.1).finalEntry_fresh hcols
      unfold FreshAt at hfresh hfresh'
      rw [hfresh, hfresh', hgroup]
  rw [heq, heq']
  exact h.coherent_final hmerge _ _ ⟨s, hs, rfl⟩ ⟨s', hs', rfl⟩ hfinal hgroup

end Coherence

-- ---------------------------------------------------------------------------
-- Runs over safe rows
-- ---------------------------------------------------------------------------

section Runs

variable {hash_range : StatMap δ → Fin (2 ^ 64)} {S : StatsSelect}

omit [LinearOrder δ] [Numerics δ] in
theorem LooksLike.refl (e : Entry δ) : LooksLike e e := ⟨rfl, rfl, fun _ => rfl⟩

/-- `Merge`, whatever made the entries of the input. -/
theorem exists_merge {make : Sample δ → Entry δ} {E : Sample δ → Prop} {field : String}
    (hP : Coherent (EntryOf (fun s => dropDistinct hash_range field (make s)) E))
    {input output : MapBuf δ} (hin : AllLike (EntryOf make E) input)
    (hout : AllLike (EntryOf (fun s => dropDistinct hash_range field (make s)) E) output) :
    ∃ m, Merge hash_range field input output = some m ∧
      AllLike (EntryOf (fun s => dropDistinct hash_range field (make s)) E) m := by
  refine foldlM_invariant (fun e he out hall => ?_) hout
  obtain ⟨_, ⟨s, hs, rfl⟩, hlike⟩ := hin e he
  exact exists_mergeFullRow hP hall ⟨s, hs, rfl⟩ hlike.dropDistinct

variable {filter : StatMap δ → Bool} {D : Sample δ → Prop} (h : SafeRows hash_range S filter D)
include h

theorem SafeRows.exists_loadChunk (hst : S.status_ = true) {rows : List (Sample δ)}
    (hrows : ∀ s ∈ rows, D s) :
    ∃ m, loadChunk hash_range S rows = some m ∧
      AllLike (EntryOf (loadedEntry hash_range S) D) m := by
  refine foldlM_invariant (fun s hs out hall => ?_) (allLike_empty _)
  rw [loadRow_eq hash_range S hst (loadable_iff.mpr (h.loads s (hrows s hs)))]
  exact exists_mergeFullRow h.coherent_loaded hall ⟨s, hrows s hs, rfl⟩ (LooksLike.refl _)

omit [Numerics δ] h in
theorem mem_process_query {table : String} {limit : Nat} {m : MapBuf δ} {e : Entry δ}
    (he : e ∈ (process_query table limit filter m).entries) :
    e ∈ m.entries ∧ filter e.2.1 = true := by
  unfold process_query applyLimit at he
  have hrows : e ∈ (filterRows filter m).entries := by
    split at he
    · exact List.mem_of_mem_take he
    · exact he
  exact List.mem_filter.mp hrows

theorem SafeRows.exists_execChunk (hst : S.status_ = true) (table : String) (limit : Nat)
    {rows : List (Sample δ)} (hrows : ∀ s ∈ rows, D s) :
    ∃ m, execChunk hash_range S table limit filter rows = some m ∧
      AllLike (EntryOf (loadedEntry hash_range S) (Passing S filter D)) m := by
  obtain ⟨m, hm, hall⟩ := h.exists_loadChunk hst hrows
  refine ⟨process_query table limit filter m, ?_, fun e he => ?_⟩
  · rw [execChunk, hm]
    rfl
  · obtain ⟨he, hpass⟩ := mem_process_query he
    obtain ⟨_, ⟨s, hs, rfl⟩, hlike⟩ := hall e he
    have hgroup : e.2.1 = buildUniks S s := hlike.group
    exact ⟨_, ⟨s, ⟨hs, hgroup ▸ hpass⟩, rfl⟩, hlike⟩

/-- What an instance ends with. Without a merge nothing is said of it, as nothing is
asked of it. -/
theorem SafeRows.exists_execInstance (hst : S.status_ = true) (table : String) (limit : Nat)
    {chunks : List (List (Sample δ))} (hrows : ∀ rows ∈ chunks, ∀ s ∈ rows, D s) :
    ∃ m, execInstance hash_range S table limit filter chunks = some m ∧
      (S.IsMergeNeeded = true →
        AllLike (EntryOf (foldedEntry hash_range S) (Passing S filter D)) m) := by
  obtain ⟨outputs, houts, hall⟩ := mapM_forall fun rows hr =>
    h.exists_execChunk hst table limit (hrows rows hr)
  unfold execInstance Folding.foldAll
  rw [houts]
  refine foldlM_invariant (fun output hout result hresult => ?_) fun _ => allLike_empty _
  by_cases hmerge : S.IsMergeNeeded = true
  · obtain ⟨m, hm, hm'⟩ := exists_merge (h.coherent_folded hmerge) (hall output hout)
      (hresult hmerge)
    refine ⟨m, ?_, fun _ => hm'⟩
    simp only [mapFolding, hmerge, if_true, hm, Option.map_some]
  · refine ⟨insertAll output result, ?_, fun hneeded => absurd hneeded hmerge⟩
    simp only [mapFolding, hmerge, if_false, Bool.false_eq_true]

theorem SafeRows.exists_rekeyEntries (hfree : AggSlotsFree S) (hmerge : S.IsMergeNeeded = true)
    {m : MapBuf δ} (hm : AllLike (EntryOf (finalEntry hash_range S) (Passing S filter D)) m) :
    ∃ m', rekeyEntries S m.entries .empty = some m' ∧
      AllLike (Rekeyed hash_range S (Passing S filter D)) m' := by
  refine foldlM_invariant (fun e he out hall => ?_) (allLike_empty _)
  obtain ⟨_, ⟨s, hs, rfl⟩, hlike⟩ := hm e he
  -- the entry has what the row carries, and a key as long
  have hfill : (fillSlots e.2.2.find? S.agg_sort_cols_.entries e.1).isSome = true := by
    refine fillSlots_isSome_iff.mpr fun x hx => ?_
    obtain ⟨hcarries, hslot⟩ := h.carries hmerge s hs.1 hs.2 x hx
    rw [hlike.kinds.isSome_iff, (h.loads s hs.1).finalEntry_isSome_iff, hlike.key,
      (h.loads s hs.1).finalEntry_length]
    exact ⟨hcarries, Nat.lt_succ_of_le hslot⟩
  obtain ⟨ukey, hukey⟩ := Option.isSome_iff_exists.mp hfill
  have hrekeyed : Rekeyed hash_range S (Passing S filter D)
      (ukey, (finalEntry hash_range S s).2) := by
    refine ⟨s, hs, rfl, fun i hi => ?_⟩
    rw [fillSlots_getElem?_of_not_mem hukey hi, hlike.key]
  have hmoved : LooksLike (ukey, e.2) (ukey, (finalEntry hash_range S s).2) :=
    ⟨rfl, hlike.group, hlike.kinds⟩
  rw [hukey]
  exact exists_mergeFullRow (h.coherent_rekeyed hmerge hfree) hall hrekeyed hmoved

theorem SafeRows.exists_mergeFinal (hfree : AggSlotsFree S) (hmerge : S.IsMergeNeeded = true)
    {inputs : List (MapBuf δ)} (hin : ∀ m ∈ inputs,
      AllLike (EntryOf (foldedEntry hash_range S) (Passing S filter D)) m) :
    ∃ m, MergeFinal hash_range S inputs = some m := by
  have hinputs : ∃ m, mergeInputs hash_range S.count_distinct_field_ inputs .empty = some m ∧
      AllLike (EntryOf (finalEntry hash_range S) (Passing S filter D)) m :=
    foldlM_invariant (fun input hinput out hall =>
      exists_merge (h.coherent_final hmerge) (hin input hinput) hall) (allLike_empty _)
  obtain ⟨merged, hmerged, hall⟩ := hinputs
  unfold MergeFinal
  rw [hmerged]
  by_cases hnone : S.agg_sort_cols_.isEmpty = true
  · exact ⟨merged, if_pos hnone⟩
  · obtain ⟨m, hm, -⟩ := h.exists_rekeyEntries hfree hmerge hall
    refine ⟨m, ?_⟩
    show (if S.agg_sort_cols_.isEmpty = true then some merged else _) = _
    rw [if_neg hnone, hm]

/-- The run lemma: over safe rows every run comes to its end. -/
theorem SafeRows.neverAborts (hst : S.status_ = true) (hfree : AggSlotsFree S) (table : String)
    (limit : Nat) : NeverAborts hash_range S table limit filter D := by
  intro plan hplan
  obtain ⟨results, hresults, hall⟩ := mapM_forall fun chunks hc =>
    h.exists_execInstance hst table limit (hplan chunks hc)
  unfold execQuery
  rw [hresults]
  show Option.map Prod.snd
    ((mapFolding hash_range S limit S.IsMergeNeeded).merge true results) ≠ none
  by_cases hmerge : S.IsMergeNeeded = true
  · obtain ⟨m, hm⟩ := h.exists_mergeFinal hfree hmerge fun m hm => hall m hm hmerge
    simp only [mapFolding, hmerge, if_true, hm, Option.map_some]
    exact Option.some_ne_none _
  · simp only [mapFolding, hmerge, if_false, Bool.false_eq_true, Option.map_some]
    exact Option.some_ne_none _

end Runs

-- ---------------------------------------------------------------------------
-- Runs over one row and over two
-- ---------------------------------------------------------------------------

section Probes

variable {hash_range : StatMap δ → Fin (2 ^ 64)} {S : StatsSelect} {s s' : Sample δ}

theorem mergeFullRow_eq_none {m : MapBuf δ} {e e' : Entry δ} (hm : m.entries = [e])
    (hkey : e.1 = e'.1) (hgroup : e.2.1 = e'.2.1) (hnone : MergeAggRow e.2.2 e'.2.2 = none) :
    MergeFullRow e'.1 e'.2.1 e'.2.2 m = none := by
  have hfind : m.find? e'.1 = some e.2 := by
    show findList e'.1 m.entries = _
    rw [hm, findList, if_pos hkey.symm]
  unfold MergeFullRow Multimap.mergeEntry
  rw [hfind]
  show (if sameUniks e.2 (e'.2.1, e'.2.2) = true then
    (mergeAggs e.2 (e'.2.1, e'.2.2)).map (m.replace e'.1) else _) = none
  rw [if_pos ((sameUniks_iff _ _).mpr hgroup), mergeAggs, hnone]
  rfl

theorem exists_loadChunk_one (hst : S.status_ = true) (h : RowLoads S s) :
    ∃ m, loadChunk hash_range S [s] = some m ∧ m.entries = [loadedEntry hash_range S s] := by
  rw [loadChunk, List.foldlM_cons, loadRow_eq hash_range S hst (loadable_iff.mpr h)]
  exact ⟨_, rfl, rfl⟩

theorem loadChunk_two_eq_none (hst : S.status_ = true) (h : RowLoads S s) (h' : RowLoads S s')
    (hgroup : buildUniks S s = buildUniks S s')
    (hnone : MergeAggRow (contribution hash_range S s).2 (contribution hash_range S s').2 = none) :
    loadChunk hash_range S [s, s'] = none := by
  obtain ⟨m, hm, hentries⟩ : ∃ m, loadChunk hash_range S [s] = some m ∧
      m.entries = [loadedEntry hash_range S s] := exists_loadChunk_one hst h
  have hfirst : LoadRow hash_range S s .empty = some m := by
    rw [loadChunk, List.foldlM_cons] at hm
    obtain ⟨m', hm', hm⟩ := Option.bind_eq_some_iff.mp hm
    exact hm'.trans hm
  have hsecond : LoadRow hash_range S s' m = none := by
    rw [loadRow_eq hash_range S hst (loadable_iff.mpr h')]
    have hkey := congrArg (keyOf hash_range S) hgroup
    exact @mergeFullRow_eq_none _ _ _ m _ (loadedEntry hash_range S s') hentries hkey hgroup hnone
  rw [loadChunk, List.foldlM_cons, hfirst]
  show List.foldlM (fun output s => LoadRow hash_range S s output) m [s'] = none
  rw [List.foldlM_cons, hsecond]
  rfl

variable {table : String} {limit : Nat} {filter : StatMap δ → Bool}

theorem execQuery_eq_none_of_chunk {rows : List (Sample δ)}
    (h : loadChunk hash_range S rows = none) :
    execQuery hash_range S table limit filter [[rows]] = none := by
  have hchunk : execChunk hash_range S table limit filter rows = none := by
    rw [execChunk, h]
    rfl
  have hinstance : execInstance hash_range S table limit filter [rows] = none := by
    rw [execInstance, mapM_eq_none (List.mem_singleton_self rows) hchunk]
    rfl
  rw [execQuery, mapM_eq_none (List.mem_singleton_self [rows]) hinstance]
  rfl

/-- An instance with one row that passes the filter. A limit leaves it in. -/
theorem exists_execInstance_one (hst : S.status_ = true) (hmerge : S.IsMergeNeeded = true)
    (h : RowLoads S s) (hpass : filter (buildUniks S s) = true) :
    ∃ m, execInstance hash_range S table limit filter [[s]] = some m ∧
      m.entries = [foldedEntry hash_range S s] := by
  obtain ⟨m, hm, hentries⟩ : ∃ m, loadChunk hash_range S [s] = some m ∧
      m.entries = [loadedEntry hash_range S s] := exists_loadChunk_one hst h
  have hprocess : (process_query table limit filter m).entries = [loadedEntry hash_range S s] := by
    have hrows : (filterRows filter m).entries = [loadedEntry hash_range S s] := by
      show m.entries.filter _ = _
      rw [hentries]
      exact List.filter_cons_of_pos hpass
    unfold process_query applyLimit
    split
    · rename_i hlimit
      show (filterRows filter m).entries.take _ = _
      rw [hrows]
      exact List.take_of_length_le (Nat.one_le_iff_ne_zero.mpr hlimit)
    · exact hrows
  have hchunk : execChunk hash_range S table limit filter [s] =
      some (process_query table limit filter m) := by
    rw [execChunk, hm]
    rfl
  have hmerged : Merge hash_range "" (process_query table limit filter m) .empty =
      some ⟨[foldedEntry hash_range S s], List.pairwise_singleton _ _⟩ := by
    rw [Merge, hprocess]
    rfl
  refine ⟨⟨[foldedEntry hash_range S s], List.pairwise_singleton _ _⟩, ?_, rfl⟩
  rw [execInstance, List.mapM_cons, hchunk]
  show (mapFolding hash_range S limit S.IsMergeNeeded).foldAll
    [process_query table limit filter m] = _
  rw [Folding.foldAll, List.foldlM_cons]
  simp only [mapFolding, hmerge, if_true, hmerged, Option.map_some]
  rfl

theorem mergeInputs_one {m : MapBuf δ} (hm : m.entries = [foldedEntry hash_range S s])
    (inputs : List (MapBuf δ)) :
    mergeInputs hash_range S.count_distinct_field_ (m :: inputs) .empty =
      mergeInputs hash_range S.count_distinct_field_ inputs
        ⟨[finalEntry hash_range S s], List.pairwise_singleton _ _⟩ := by
  rw [mergeInputs, List.foldlM_cons, Merge, hm]
  rfl

theorem execQuery_eq_none_of_mergeFinal (hmerge : S.IsMergeNeeded = true)
    {plan : List (List (List (Sample δ)))} {results : List (MapBuf δ)}
    (hresults : plan.mapM (execInstance hash_range S table limit filter) = some results)
    (h : MergeFinal hash_range S results = none) :
    execQuery hash_range S table limit filter plan = none := by
  rw [execQuery, hresults]
  show Option.map Prod.snd ((mapFolding hash_range S limit S.IsMergeNeeded).merge true results) = _
  simp only [mapFolding, hmerge, if_true, h, Option.map_none]

/-- A row without an aggregate that is sorted by aborts `MergeFinal`. -/
theorem execQuery_one_eq_none (hst : S.status_ = true) (hmerge : S.IsMergeNeeded = true)
    (h : RowLoads S s) (hpass : filter (buildUniks S s) = true) (hcarries : ¬ CarriesSorted S s) :
    execQuery hash_range S table limit filter [[[s]]] = none := by
  obtain ⟨m, hm, hentries⟩ : ∃ m, execInstance hash_range S table limit filter [[s]] = some m ∧
      m.entries = [foldedEntry hash_range S s] := exists_execInstance_one hst hmerge h hpass
  have hresults : [[[s]]].mapM (execInstance hash_range S table limit filter) = some [m] := by
    rw [List.mapM_cons, hm]
    rfl
  refine execQuery_eq_none_of_mergeFinal hmerge hresults ?_
  have hfill : fillSlots (finalEntry hash_range S s).2.2.find? S.agg_sort_cols_.entries
      (finalEntry hash_range S s).1 = none := by
    rw [← Option.not_isSome_iff_eq_none, fillSlots_isSome_iff]
    intro hall
    refine hcarries fun x hx => ?_
    obtain ⟨hsome, hslot⟩ := hall x hx
    rw [h.finalEntry_length] at hslot
    exact ⟨(h.finalEntry_isSome_iff x.1).mp hsome, Nat.le_of_lt_succ hslot⟩
  have hnonempty : ¬ S.agg_sort_cols_.isEmpty = true := by
    intro hempty
    refine hcarries fun x hx => ?_
    rw [List.isEmpty_iff.mp hempty] at hx
    exact absurd hx (by simp)
  rw [MergeFinal, mergeInputs_one hentries]
  show (if S.agg_sort_cols_.isEmpty = true then _ else _) = none
  rw [if_neg hnonempty]
  exact rekeyEntries_eq_none (List.mem_singleton_self _) hfill .empty

/-- Two rows of groups that become one, with numbers of different types, abort it too. -/
theorem execQuery_two_eq_none (hst : S.status_ = true) (hmerge : S.IsMergeNeeded = true)
    (h : RowLoads S s) (h' : RowLoads S s') (hpass : filter (buildUniks S s) = true)
    (hpass' : filter (buildUniks S s') = true)
    (hkey : (finalEntry hash_range S s).1 = (finalEntry hash_range S s').1)
    (hgroup : (finalEntry hash_range S s).2.1 = (finalEntry hash_range S s').2.1)
    (hnone : MergeAggRow (finalEntry hash_range S s).2.2 (finalEntry hash_range S s').2.2 = none) :
    execQuery hash_range S table limit filter [[[s]], [[s']]] = none := by
  obtain ⟨m, hm, hentries⟩ : ∃ m, execInstance hash_range S table limit filter [[s]] = some m ∧
      m.entries = [foldedEntry hash_range S s] := exists_execInstance_one hst hmerge h hpass
  obtain ⟨m', hm', hentries'⟩ : ∃ m, execInstance hash_range S table limit filter [[s']] = some m ∧
      m.entries = [foldedEntry hash_range S s'] := exists_execInstance_one hst hmerge h' hpass'
  have hresults : [[[s]], [[s']]].mapM (execInstance hash_range S table limit filter) =
      some [m, m'] := by
    rw [List.mapM_cons, hm, List.mapM_cons, hm']
    rfl
  refine execQuery_eq_none_of_mergeFinal hmerge hresults ?_
  have hsecond : Merge hash_range S.count_distinct_field_ m'
      ⟨[finalEntry hash_range S s], List.pairwise_singleton _ _⟩ = none := by
    rw [Merge, hentries', mergeEntries, List.foldlM_cons]
    have hfull := @mergeFullRow_eq_none _ _ _ ⟨[finalEntry hash_range S s],
      List.pairwise_singleton _ _⟩ _ (finalEntry hash_range S s') rfl hkey hgroup hnone
    exact Option.bind_eq_none_iff.mpr fun out hout => absurd (hfull.symm.trans hout) (by simp)
  rw [MergeFinal, mergeInputs_one hentries, mergeInputs, List.foldlM_cons, hsecond]
  rfl

end Probes

-- ---------------------------------------------------------------------------
-- When no run aborts
-- ---------------------------------------------------------------------------

/-- Rows that come to one entry with numbers that do not agree abort some run. -/
theorem NeverAborts.agree {hash_range : StatMap δ → Fin (2 ^ 64)} {S : StatsSelect}
    {table : String} {limit : Nat} {filter : StatMap δ → Bool} {D : Sample δ → Prop}
    (h : NeverAborts hash_range S table limit filter D) (hst : S.status_ = true)
    (hloads : ∀ s, D s → RowLoads S s) {s s' : Sample δ} (hs : D s) (hs' : D s')
    (hmeet : Meet hash_range S filter s s') {op : AggOper} {f : String}
    (hop : op = .SUM ∨ op = .MAX ∨ op = .MIN) (hcols : opCols S op f = true) {v v' : StatVal δ}
    (hv : columnValue s.row f = some v) (hv' : columnValue s'.row f = some v')
    (hnum : v.which = .UINT64 ∨ v.which = .DOUBLE) : v'.which = v.which := by
  by_contra hne
  have hfind : (contribution hash_range S s).2.find? (aggkey op f) = some v :=
    (contribution_find?_of_loadsAs hop hcols (hloads s hs).loadsAs).trans hv
  have hfind' : (contribution hash_range S s').2.find? (aggkey op f) = some v' :=
    (contribution_find?_of_loadsAs hop hcols (hloads s' hs').loadsAs).trans hv'
  have hclash : ¬ Agrees (aggkey op f).oper v.which v'.which := by
    show ¬ Agrees op v.which v'.which
    rcases hop with rfl | rfl | rfl <;> exact fun hagree => hne (hagree hnum)
  rcases hmeet with hgroup | ⟨hmerge, hpass, hpass', hkey, hgroup⟩
  · refine h [[[s, s']]] ?_ (execQuery_eq_none_of_chunk (loadChunk_two_eq_none hst (hloads s hs)
      (hloads s' hs') hgroup (mergeAggRow_eq_none hfind hfind' hclash)))
    simp [hs, hs']
  · have hdistinct : (aggkey op f).oper ≠ .COUNT_DISTINCT := by
      show op ≠ .COUNT_DISTINCT
      rcases hop with rfl | rfl | rfl <;> decide
    have hfinal : ∀ t, (finalEntry hash_range S t).2.2.find? (aggkey op f) =
        (contribution hash_range S t).2.find? (aggkey op f) := fun t =>
      (dropDistinct_find?_of_ne hdistinct _).trans (dropDistinct_find?_of_ne hdistinct _)
    refine h [[[s]], [[s']]] ?_ (execQuery_two_eq_none hst hmerge (hloads s hs) (hloads s' hs')
      hpass hpass' hkey hgroup (mergeAggRow_eq_none ((hfinal s).trans hfind)
        ((hfinal s').trans hfind') hclash))
    simp [hs, hs']

/-- For an accepted query and any rows, no run over these rows fails an assertion
exactly when each of them has the sort columns and the sorted aggregates, and the
numbers of rows that come to one entry have one type. -/
theorem never_aborts_iff (hash_range : StatMap δ → Fin (2 ^ 64))
    {schema : Option (String → VarType)} {select_column_fields sort_fields : List String}
    {S : StatsSelect} (h : Accepted schema select_column_fields sort_fields S) (table : String)
    (limit : Nat) (filter : StatMap δ → Bool) (D : Sample δ → Prop) :
    NeverAborts hash_range S table limit filter D ↔ SafeRows hash_range S filter D := by
  constructor
  · intro hnever
    have hloads : ∀ s, D s → RowLoads S s := by
      intro s hs
      by_contra hnot
      refine hnever [[[s]]] (by simp [hs]) (execQuery_eq_none_of_chunk ?_)
      rw [loadChunk, List.foldlM_cons,
        loadRow_eq_none hash_range S h.status (mt loadable_iff.mp hnot)]
      rfl
    refine ⟨hloads, ?_, ?_⟩
    · intro s s' hs hs' hmeet op f hop hcols v v' hv hv' hnum
      exact hnever.agree h.status hloads hs hs' hmeet hop hcols hv hv' hnum
    · intro hmerge s hs hpass
      by_contra hnot
      exact hnever [[[s]]] (by simp [hs])
        (execQuery_one_eq_none h.status hmerge (hloads s hs) hpass hnot)
  · intro hsafe
    exact hsafe.neverAborts h.status (build_slots_free h.built) table limit

/-- A stat table with two columns. -/
def sampleSchema (column : String) : VarType :=
  if column = "a" ∨ column = "x" then .UINT64 else .BLANK

omit [LinearOrder δ] [Numerics δ] in
theorem exists_accepted {schema : Option (String → VarType)}
    {select_column_fields sort_fields : List String}
    (hbuilt : (build (knownColumn schema) select_column_fields sort_fields).map
      StatsSelect.status_ = some true)
    (hsorts : ∀ f ∈ sort_fields, acceptsSortField schema select_column_fields f = some true) :
    ∃ S, build (knownColumn schema) select_column_fields sort_fields = some S ∧
      Accepted schema select_column_fields sort_fields S := by
  obtain ⟨S, hS, hst⟩ := Option.map_eq_some_iff.mp hbuilt
  exact ⟨S, hS, hS, hst, hsorts⟩

/-- Rows with both columns, both unsigned numbers. -/
theorem never_aborts_sample :
    ∃ S, Accepted (some sampleSchema) ["a", "SUM(x)"] ["a"] S ∧
      NeverAborts sampleHash S "StatTable.sample.x" 0 (fun _ => true)
        (fun s => ∃ a x, s = numberRow [("a", a), ("x", x)]) := by
  obtain ⟨S, hS, hacc⟩ := exists_accepted (show (build (knownColumn (some sampleSchema))
    ["a", "SUM(x)"] ["a"]).map StatsSelect.status_ = some true by decide +kernel)
    (show ∀ f ∈ ["a"], acceptsSortField (some sampleSchema) ["a", "SUM(x)"] f = some true by
      decide +kernel)
  have hcols : S.sort_cols_.entries = [("a", 0)] ∧ S.agg_sort_cols_.entries = [] ∧
      S.unik_cols_.has "a" = true ∧ (∀ n, S.avg_field_.has n = false) ∧
      ∀ n, S.percentile_cols_.has n = false := by
    injection hS with hS
    subst hS
    exact ⟨by decide, by decide, by decide, fun n => rfl, fun n => rfl⟩
  obtain ⟨hsort, haggs, hunik, havg, hpct⟩ := hcols
  have hnumber : ∀ a x f v, columnValue (numberRow [("a", a), ("x", x)]).row f = some v →
      v.which = .UINT64 := by
    intro a x f v hv
    obtain ⟨it, hit, rfl⟩ := Option.map_eq_some_iff.mp hv
    obtain ⟨c, -, rfl⟩ := List.mem_map.mp (List.mem_of_find?_eq_some hit)
    rfl
  refine ⟨S, hacc, (never_aborts_iff sampleHash hacc _ _ _ _).mpr ⟨?_, ?_, ?_⟩⟩
  · rintro s ⟨a, x, rfl⟩
    refine ⟨fun e he => ?_, fun it _ hhas => ?_⟩
    · rw [hsort, List.mem_singleton] at he
      subst he
      exact ⟨.inr (.inr (.inr ⟨hunik, _, List.mem_cons_self, rfl⟩)), Nat.zero_le _⟩
    · rw [havg, hpct] at hhas
      exact absurd hhas (by simp)
  · rintro s s' ⟨a, x, rfl⟩ ⟨a', x', rfl⟩ - op f - - v v' hv hv' -
    rw [hnumber a x f v hv, hnumber a' x' f v' hv']
  · intro _ s _ _ e he
    rw [haggs] at he
    exact absurd he (by simp)

theorem exists_aborted {schema : Option (String → VarType)}
    {select_column_fields sort_fields : List String} {plan : List (List (List (Sample Nat)))}
    (hbuilt : (build (knownColumn schema) select_column_fields sort_fields).map
      StatsSelect.status_ = some true)
    (hsorts : ∀ f ∈ sort_fields, acceptsSortField schema select_column_fields f = some true)
    (hrun : (build (knownColumn schema) select_column_fields sort_fields).map (fun S =>
      (execQuery sampleHash S "StatTable.sample.x" 0 (fun _ => true) plan).isNone) = some true) :
    ∃ S, Accepted schema select_column_fields sort_fields S ∧
      execQuery sampleHash S "StatTable.sample.x" 0 (fun _ => true) plan = none := by
  obtain ⟨S, hS, hacc⟩ := exists_accepted hbuilt hsorts
  rw [hS] at hrun
  exact ⟨S, hacc, Option.isNone_iff_eq_none.mp (Option.some.inj hrun)⟩

/-- The sort column is not in the row, the sorted sum is not, or the sum is of an
unsigned number in one row and of a double in the next. -/
theorem accepted_query_aborts :
    (∃ S, Accepted (some sampleSchema) ["a", "SUM(x)"] ["a"] S ∧
      execQuery sampleHash S "StatTable.sample.x" 0 (fun _ => true)
        [[[numberRow [("x", 1)]]]] = none) ∧
    (∃ S, Accepted (some sampleSchema) ["a", "SUM(x)"] ["SUM(x)"] S ∧
      execQuery sampleHash S "StatTable.sample.x" 0 (fun _ => true)
        [[[numberRow [("a", 1)]]]] = none) ∧
    (∃ S, Accepted none ["a", "SUM(x)"] [] S ∧
      execQuery sampleHash S "StatTable.sample.x" 0 (fun _ => true)
        [[[numberRow [("a", 1), ("x", 1)],
          { u := 0, timestamp := 0, row := [⟨"a", .uint64 1⟩, ⟨"x", .double 2⟩] }]]] = none) := by
  refine ⟨?_, ?_, ?_⟩
  · exact exists_aborted (by decide +kernel) (by decide +kernel) (by decide +kernel)
  · exact exists_aborted (by decide +kernel) (by decide +kernel) (by decide +kernel)
  · exact exists_aborted (by decide +kernel) (by decide +kernel) (by decide +kernel)

end StatsSelect

end TfAnalytics.QueryEngine
