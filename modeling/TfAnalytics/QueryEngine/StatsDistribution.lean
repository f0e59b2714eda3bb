import TfAnalytics.QueryEngine.StatsMerge

/-!
# Query engine — stats results and how rows are distributed

A stats query runs over chunks, the chunks of an instance are merged as they
come, the instances at the end. The results here say when the outcome does not
depend on that distribution.

* `runQuery_merged`: the multimap before re-keying holds the totals of the rows
  that survived the limit, for every plan;
* `stats_independent_of_distribution`: without a limit every plan gives the
  groups and totals of loading all rows in one chunk, as long as no plain sort
  column sits on the slot of the hash. `SetSortOrder` numbers the slots by the
  position in the sort list but sizes the key by the number of different
  columns, so a repeated sort field shifts the later ones.
-/

namespace TfAnalytics.QueryEngine.StatsSelect

open TfAnalytics.Lib

variable {δ : Type} [LinearOrder δ] [Numerics δ]

-- ---------------------------------------------------------------------------
-- What a plan leaves in the merged multimap
-- ---------------------------------------------------------------------------

/-- The contributions of a chunk that survive its limit. -/
def kept (hash_range : StatMap δ → Fin (2 ^ 64)) (S : StatsSelect) (limit : Nat)
    (chunk : List (Sample δ)) : List (StatMap δ × AggRow δ) :=
  match loadChunk hash_range S chunk with
  | none => []
  | some m =>
    if limit ≠ 0 then
      (chunk.map (contribution hash_range S)).filter
        fun c => decide (keyOf hash_range S c.1 ∈ (m.entries.take limit).map Prod.fst)
    else chunk.map (contribution hash_range S)

def keptAll (hash_range : StatMap δ → Fin (2 ^ 64)) (S : StatsSelect) (limit : Nat)
    (plan : List (List (List (Sample δ)))) : List (StatMap δ × AggRow δ) :=
  (plan.map fun chunks => chunks.flatMap (kept hash_range S limit)).flatten

section

variable {hash_range : StatMap δ → Fin (2 ^ 64)} {S : StatsSelect}
  {Total : List (StatMap δ × AggRow δ) → StatMap δ × AggRow δ → Prop} {rows : List (Sample δ)}

theorem kept_from {limit : Nat} {chunk : List (Sample δ)} (hsub : ∀ s ∈ chunk, s ∈ rows) :
    From hash_range S rows (kept hash_range S limit chunk) := by
  have hall : From hash_range S rows (chunk.map (contribution hash_range S)) := by
    intro c hc
    obtain ⟨s, hs, rfl⟩ := List.mem_map.mp hc
    exact ⟨s, hsub s hs, rfl⟩
  intro c hc
  unfold kept at hc
  split at hc
  · exact absurd hc (by simp)
  · split at hc
    · exact hall c (List.mem_filter.mp hc).1
    · exact hall c hc

/-- A loaded and cut chunk holds the totals of what it kept. -/
theorem chunk_represents (hR : Regular hash_range S Total rows) (limit : Nat)
    {chunk : List (Sample δ)} (hsub : ∀ s ∈ chunk, s ∈ rows) :
    ∃ m, loadChunk hash_range S chunk = some m ∧
      Holds hash_range S Total (applyLimit limit m) (kept hash_range S limit chunk) := by
  obtain ⟨m, hm, hrep⟩ := loadChunk_represents hR hsub
  refine ⟨m, hm, ?_⟩
  unfold kept applyLimit
  rw [hm]
  by_cases hl : limit ≠ 0
  · rw [if_pos hl]
    simp only [if_pos hl]
    exact represents_truncate hrep fun c => decide_eq_true_iff
  · rw [if_neg hl]
    simp only [if_neg hl]
    exact hrep

theorem runInstance_represents (hR : Regular hash_range S Total rows)
    (hblank : ∀ s ∈ rows, (buildUniks S s).find? "" = none) (limit : Nat)
    {chunks : List (List (Sample δ))} (hsub : ∀ chunk ∈ chunks, ∀ s ∈ chunk, s ∈ rows) :
    ∃ m, runInstance hash_range S limit chunks = some m ∧
      Holds hash_range S Total m (chunks.flatMap (kept hash_range S limit)) := by
  -- induction over the chunks, from any multimap the instance may hold
  have hgen : ∀ (l : List (List (Sample δ))), (∀ chunk ∈ l, ∀ s ∈ chunk, s ∈ rows) →
      ∀ (m : MapBuf δ) (cs : List (StatMap δ × AggRow δ)), Holds hash_range S Total m cs →
      From hash_range S rows cs →
      ∃ m', l.foldlM (fun out chunk => do
          let c ← loadChunk hash_range S chunk
          Merge hash_range "" (applyLimit limit c) out) m = some m' ∧
        Holds hash_range S Total m' (cs ++ l.flatMap (kept hash_range S limit)) := by
    intro l
    induction l with
    | nil => exact fun _ m cs h _ => ⟨m, rfl, by simpa using h⟩
    | cons chunk l ih =>
      intro hl m cs h hcs
      have hck := hl chunk (List.mem_cons_self ..)
      obtain ⟨c, hc, hrep⟩ := chunk_represents hR limit hck
      obtain ⟨m₁, hm₁, hrep₁⟩ := merge_represents hR hblank h hrep hcs (kept_from hck)
      have hcs₁ : From hash_range S rows (cs ++ kept hash_range S limit chunk) := fun x hx =>
        (List.mem_append.mp hx).elim (hcs x) (kept_from hck x)
      obtain ⟨m', hm', hrep'⟩ :=
        ih (fun ck h' => hl ck (List.mem_cons_of_mem _ h')) m₁ _ hrep₁ hcs₁
      refine ⟨m', ?_, ?_⟩
      · rw [List.foldlM_cons, hc]
        show (Merge hash_range "" (applyLimit limit c) m).bind _ = _
        rw [hm₁]
        exact hm'
      · rw [List.flatMap_cons, ← List.append_assoc]
        exact hrep'
  obtain ⟨m', hm', hrep'⟩ := hgen chunks hsub .empty [] represents_empty
    fun c hc => absurd hc (by simp)
  exact ⟨m', hm', by simpa using hrep'⟩

theorem runInstances_represent (hR : Regular hash_range S Total rows)
    (hblank : ∀ s ∈ rows, (buildUniks S s).find? "" = none) (limit : Nat)
    {plan : List (List (List (Sample δ)))}
    (hsub : ∀ chunks ∈ plan, ∀ chunk ∈ chunks, ∀ s ∈ chunk, s ∈ rows) :
    ∃ ms, plan.mapM (runInstance hash_range S limit) = some ms ∧
      HoldAll hash_range S Total ms
        (plan.map fun chunks => chunks.flatMap (kept hash_range S limit)) := by
  induction plan with
  | nil => exact ⟨[], rfl, .nil⟩
  | cons chunks plan ih =>
    obtain ⟨m, hm, hrep⟩ := runInstance_represents hR hblank limit
      (hsub chunks (List.mem_cons_self ..))
    obtain ⟨ms, hms, hreps⟩ := ih fun cs h => hsub cs (List.mem_cons_of_mem _ h)
    refine ⟨m :: ms, ?_, .cons hrep hreps⟩
    rw [List.mapM_cons, hm, hms]
    rfl

theorem keptParts_from {limit : Nat} {plan : List (List (List (Sample δ)))}
    (hsub : ∀ chunks ∈ plan, ∀ chunk ∈ chunks, ∀ s ∈ chunk, s ∈ rows) :
    ∀ cs ∈ plan.map fun chunks => chunks.flatMap (kept hash_range S limit),
      From hash_range S rows cs := by
  intro cs hcs
  obtain ⟨chunks, hchunks, rfl⟩ := List.mem_map.mp hcs
  intro c hc
  obtain ⟨chunk, hchunk, hc⟩ := List.mem_flatMap.mp hc
  exact kept_from (hsub chunks hchunks chunk hchunk) c hc

omit [LinearOrder δ] [Numerics δ] in
theorem mem_rows_of_perm {plan : List (List (List (Sample δ)))}
    (hperm : plan.flatten.flatten.Perm rows) :
    ∀ chunks ∈ plan, ∀ chunk ∈ chunks, ∀ s ∈ chunk, s ∈ rows := by
  intro chunks hchunks chunk hchunk s hs
  exact hperm.mem_iff.mp (List.mem_flatten_of_mem (List.mem_flatten_of_mem hchunks hchunk) hs)

/-- Every plan ends in a multimap with the totals of what its chunks kept. -/
theorem runQuery_merged (hR : Regular hash_range S Total rows)
    (hblank : ∀ s ∈ rows, (buildUniks S s).find? "" = none)
    (hfield : ∀ s ∈ rows, (buildUniks S s).find? S.count_distinct_field_ = none)
    (limit : Nat) {plan : List (List (List (Sample δ)))}
    (hsub : ∀ chunks ∈ plan, ∀ chunk ∈ chunks, ∀ s ∈ chunk, s ∈ rows) :
    ∃ ms m, plan.mapM (runInstance hash_range S limit) = some ms ∧
      mergeInputs hash_range S.count_distinct_field_ ms .empty = some m ∧
      Holds hash_range S Total m (keptAll hash_range S limit plan) := by
  obtain ⟨ms, hms, hreps⟩ := runInstances_represent hR hblank limit hsub
  obtain ⟨m, hm, hrep⟩ := mergeInputs_represents hR hfield hreps (keptParts_from hsub)
    represents_empty fun c hc => absurd hc (by simp)
  exact ⟨ms, m, hms, hm, by simpa [keptAll] using hrep⟩

/-- Without a limit a chunk keeps everything. -/
theorem kept_zero (hR : Regular hash_range S Total rows) {chunk : List (Sample δ)}
    (hsub : ∀ s ∈ chunk, s ∈ rows) :
    kept hash_range S 0 chunk = chunk.map (contribution hash_range S) := by
  obtain ⟨m, hm, -⟩ := loadChunk_represents hR hsub
  unfold kept
  rw [hm]
  rfl

theorem keptAll_zero (hR : Regular hash_range S Total rows)
    {plan : List (List (List (Sample δ)))}
    (hsub : ∀ chunks ∈ plan, ∀ chunk ∈ chunks, ∀ s ∈ chunk, s ∈ rows) :
    keptAll hash_range S 0 plan = plan.flatten.flatten.map (contribution hash_range S) := by
  have hparts : ∀ chunks ∈ plan, chunks.flatMap (kept hash_range S 0) =
      chunks.flatten.map (contribution hash_range S) := by
    intro chunks hchunks
    rw [List.flatMap_congr fun chunk hchunk => kept_zero hR (hsub chunks hchunks chunk hchunk),
      List.flatMap_def, List.map_flatten]
  unfold keptAll
  rw [List.map_congr_left hparts, List.flatten_flatten, List.map_flatten, List.map_map]
  rfl

-- ---------------------------------------------------------------------------
-- Re-keying
-- ---------------------------------------------------------------------------

/-- The key of a result row, aggregate slots filled. -/
def finalKey (hash_range : StatMap δ → Fin (2 ^ 64)) (S : StatsSelect)
    (b : StatMap δ × AggRow δ) : Option (SortKey δ) :=
  (buildKey hash_range S b.1).bind (fillSlots b.2.find? S.agg_sort_cols_.entries)

/-- The second loop of `MergeFinal` moves entries and does nothing else. -/
theorem rekeyEntries_perm {es : List (SortKey δ × (StatMap δ × AggRow δ))}
    (hfill : ∀ e ∈ es, (fillSlots e.2.2.find? S.agg_sort_cols_.entries e.1).isSome = true)
    (hnd : (es.map fun e => e.2.1).Nodup) :
    ∃ m, rekeyEntries S es .empty = some m ∧ m.entries.Perm
      (es.map fun e => ((fillSlots e.2.2.find? S.agg_sort_cols_.entries e.1).getD [], e.2)) := by
  have hrekey : ∀ (l : List (SortKey δ × (StatMap δ × AggRow δ))),
      (∀ e ∈ l, (fillSlots e.2.2.find? S.agg_sort_cols_.entries e.1).isSome = true) →
      ∀ out : MapBuf δ, rekeyEntries S l out = out.mergeAll sameUniks mergeAggs
        (l.map fun e => ((fillSlots e.2.2.find? S.agg_sort_cols_.entries e.1).getD [], e.2)) := by
    intro l
    unfold rekeyEntries Multimap.mergeAll
    induction l with
    | nil => intros; rfl
    | cons e l ih =>
      intro hl out
      obtain ⟨ukey, hukey⟩ := Option.isSome_iff_exists.mp (hl e (List.mem_cons_self ..))
      rw [List.map_cons, List.foldlM_cons, List.foldlM_cons, hukey]
      exact bind_congr fun out' => ih (fun e' he' => hl e' (List.mem_cons_of_mem _ he')) out'
  have hnd' : (((Multimap.empty : MapBuf δ).entries ++ es.map fun e =>
      ((fillSlots e.2.2.find? S.agg_sort_cols_.entries e.1).getD [], e.2)).map
        fun e => e.2.1).Nodup := by
    show ((List.map _ es).map _).Nodup
    rw [List.map_map]
    exact hnd
  obtain ⟨m, hm, hp⟩ := mergeAll_perm_of_nodup mergeAggs sameUniks_iff hnd'
  exact ⟨m, (hrekey es hfill .empty).trans hm, hp⟩

theorem rekeyEntries_eq_none {es : List (SortKey δ × (StatMap δ × AggRow δ))}
    {e : SortKey δ × (StatMap δ × AggRow δ)} (he : e ∈ es)
    (hfill : fillSlots e.2.2.find? S.agg_sort_cols_.entries e.1 = none) (out : MapBuf δ) :
    rekeyEntries S es out = none := by
  refine foldlM_eq_none he (fun out' => ?_) out
  show (fillSlots e.2.2.find? S.agg_sort_cols_.entries e.1).bind _ = none
  rw [hfill]
  rfl

end

-- ---------------------------------------------------------------------------
-- The aggregates of a row
-- ---------------------------------------------------------------------------

/-- Whether the SELECT applies the operator to the column. -/
def opCols (S : StatsSelect) (op : AggOper) (n : String) : Bool :=
  match op with
  | .SUM => S.sum_cols_.has n
  | .MAX => S.max_field_.has n
  | .MIN => S.min_field_.has n
  | .AVG => S.avg_field_.has n
  | .PERCENTILES => S.percentile_cols_.has n
  | .INVALID | .COUNT | .CLASS | .COUNT_DISTINCT => false

/-- The aggregated columns of a row hold unsigned 64-bit values. -/
def UIntRow (S : StatsSelect) (row : List (StatEntry δ)) : Prop :=
  ∀ it ∈ row, ∀ op, opCols S op it.name = true → ∃ n, it.value = .uint64 n

/-- The row has the column. -/
def HasColumn (row : List (StatEntry δ)) (n : String) : Prop := ∃ it ∈ row, it.name = n

def AggKey.field (k : AggKey) : String := (ofLex k).2

/-- The aggregates a row contributes a value to. -/
def Contributes (S : StatsSelect) (row : List (StatEntry δ)) (k : AggKey) : Prop :=
  (opCols S k.oper (AggKey.field k) = true ∧ HasColumn row (AggKey.field k)) ∨
  (k.oper = .CLASS ∧ S.class_cols_.has (AggKey.field k) = true) ∨
  (k.oper = .COUNT ∧ S.count_field_ ≠ "" ∧ AggKey.field k = S.count_field_)

omit [LinearOrder δ] in
theorem doublePair_spec {W : StatVal δ → Prop} {op : AggOper} {has : Bool} {it : StatEntry δ}
    {start : δ → StatVal δ} (hstart : ∀ d, W (start d))
    (h : has = true → (asDouble it.value).isSome = true) :
    ∃ r, doublePair has op start it = some r ∧
      (∀ e ∈ r, has = true ∧ e.1 = aggkey op it.name ∧ W e.2) ∧
      (has = true → ∃ e ∈ r, e.1 = aggkey op it.name) := by
  cases has with
  | false => exact ⟨[], rfl, by simp, by simp⟩
  | true =>
    obtain ⟨d, hd⟩ := Option.isSome_iff_exists.mp (h rfl)
    refine ⟨[(aggkey op it.name, start d)], ?_, ?_, by simp⟩
    · simp [doublePair, hd]
    · intro e he
      rw [List.mem_singleton.mp he]
      exact ⟨rfl, rfl, hstart _⟩

omit [LinearOrder δ] [Numerics δ] in
theorem optionalPair {W : StatVal δ → Prop} (op : AggOper) {has : Bool} {it : StatEntry δ}
    (h : has = true → W it.value) :
    (∀ e ∈ if has = true then [(aggkey op it.name, it.value)] else [],
      has = true ∧ e.1 = aggkey op it.name ∧ W e.2) ∧
    (has = true → ∃ e ∈ if has = true then [(aggkey op it.name, it.value)] else [],
      e.1 = aggkey op it.name) := by
  cases has with
  | false => simp
  | true =>
    refine ⟨?_, by simp⟩
    intro e he
    rw [if_pos rfl] at he
    rw [List.mem_singleton.mp he]
    exact ⟨rfl, rfl, h rfl⟩

/-- What the values of a row must be for its aggregates to be of the types `W`:
SUM, MAX and MIN take them as they are, AVG and PERCENTILES read a number. -/
structure LoadsAs (W : AggKey → StatVal δ → Prop) (S : StatsSelect) (row : List (StatEntry δ)) :
    Prop where
  plain : ∀ it ∈ row, ∀ op, op.exact = true → opCols S op it.name = true →
    W (aggkey op it.name) it.value
  double : ∀ it ∈ row, ∀ op, op.exact = false → opCols S op it.name = true →
    (asDouble it.value).isSome = true
  centroid : ∀ n log, W (aggkey .AVG n) (.centroid log)
  tdigest : ∀ n log, W (aggkey .PERCENTILES n) (.tdigest log)
  hash : ∀ n h, W (aggkey .CLASS n) (.uint64 h)
  count : ∀ n h, W (aggkey .COUNT n) (.uint64 h)

omit [LinearOrder δ] in
theorem otherAggs_spec {W : AggKey → StatVal δ → Prop} {S : StatsSelect}
    {row : List (StatEntry δ)} (h : LoadsAs W S row) {it : StatEntry δ} (hit : it ∈ row) :
    ∃ r, otherAggs S it = some r ∧
      (∀ e ∈ r, ∃ op, op ≠ .SUM ∧ opCols S op it.name = true ∧ e.1 = aggkey op it.name ∧
        W (aggkey op it.name) e.2) ∧
      ∀ op, op ≠ .SUM → opCols S op it.name = true → ∃ e ∈ r, e.1 = aggkey op it.name := by
  obtain ⟨avg, havg, havg₁, havg₂⟩ := doublePair_spec
    (fun d => h.centroid it.name [toLex (d, 1)]) (h.double it hit .AVG rfl)
  obtain ⟨pct, hpct, hpct₁, hpct₂⟩ := doublePair_spec
    (fun d => h.tdigest it.name [toLex (d, 1)]) (h.double it hit .PERCENTILES rfl)
  obtain ⟨hmax₁, hmax₂⟩ := optionalPair .MAX (h.plain it hit .MAX rfl)
  obtain ⟨hmin₁, hmin₂⟩ := optionalPair .MIN (h.plain it hit .MIN rfl)
  refine ⟨_, by unfold otherAggs; simp only [opCols] at havg hpct; rw [havg, hpct]; rfl, ?_, ?_⟩
  · intro e he
    simp only [List.mem_append] at he
    rcases he with ((he | he) | he) | he
    · exact ⟨.MAX, by decide, (hmax₁ e he)⟩
    · exact ⟨.MIN, by decide, (hmin₁ e he)⟩
    · exact ⟨.AVG, by decide, (havg₁ e he)⟩
    · exact ⟨.PERCENTILES, by decide, (hpct₁ e he)⟩
  · intro op hsum hop
    simp only [List.mem_append]
    cases op with
    | SUM => exact absurd rfl hsum
    | MAX => obtain ⟨e, he, hk⟩ := hmax₂ hop; exact ⟨e, Or.inl (Or.inl (Or.inl he)), hk⟩
    | MIN => obtain ⟨e, he, hk⟩ := hmin₂ hop; exact ⟨e, Or.inl (Or.inl (Or.inr he)), hk⟩
    | AVG => obtain ⟨e, he, hk⟩ := havg₂ hop; exact ⟨e, Or.inl (Or.inr he), hk⟩
    | PERCENTILES => obtain ⟨e, he, hk⟩ := hpct₂ hop; exact ⟨e, Or.inr he, hk⟩
    | INVALID | COUNT | CLASS | COUNT_DISTINCT => cases hop

omit [LinearOrder δ] in
/-- A row of such values loads, with a value for exactly the aggregates it
contributes to. -/
theorem buildAggs_spec (hash_range : StatMap δ → Fin (2 ^ 64)) {W : AggKey → StatVal δ → Prop}
    {S : StatsSelect} (u : StatMap δ) {row : List (StatEntry δ)} (h : LoadsAs W S row) :
    ∃ a, buildAggs hash_range S u row = some a ∧
      (∀ k v, a.find? k = some v → W k v) ∧
      ∀ k, (a.find? k).isSome = true ↔ Contributes S row k := by
  obtain ⟨others, hothers⟩ := collectM_isSome (f := otherAggs S) (l := row) (by
    intro it hit
    obtain ⟨r, hr, -⟩ := otherAggs_spec h hit
    rw [hr]
    rfl)
  -- the aggregates other than sums, each of a value of the row
  have hmem : ∀ e, e ∈ others → ∃ it ∈ row, ∃ op, op ≠ .SUM ∧ opCols S op it.name = true ∧
      e.1 = aggkey op it.name ∧ W (aggkey op it.name) e.2 := by
    intro e he
    obtain ⟨it, hit, xs, hxs, hexs⟩ := (mem_collectM hothers).mp he
    obtain ⟨r, hr, hspec, -⟩ := otherAggs_spec h hit
    rw [hr] at hxs
    obtain ⟨op, hop⟩ := hspec e (Option.some.inj hxs ▸ hexs)
    exact ⟨it, hit, op, hop⟩
  refine ⟨_, by unfold buildAggs; rw [hothers]; rfl, ?_, ?_⟩
  · -- a value is that of a sum, of another aggregate, of a class or of the count
    intro k v hk
    rw [OrderedMap.find?_ofList] at hk
    have hin := mem_of_findList hk
    simp only [List.mem_append, List.mem_map, List.mem_filter, Prod.mk.injEq] at hin
    rcases hin with ((⟨it, ⟨hit, hsum⟩, rfl, rfl⟩ | hin) | ⟨ct, -, rfl, rfl⟩) | hin
    · exact h.plain it hit .SUM rfl hsum
    · obtain ⟨it, -, op, -, -, hek, hwt⟩ := hmem _ hin
      have hek : k = aggkey op it.name := hek
      rw [hek]
      exact hwt
    · exact h.hash ct.1 _
    · split at hin
      · obtain ⟨rfl, rfl⟩ := Prod.mk.injEq .. ▸ List.mem_singleton.mp hin
        exact h.count _ _
      · exact absurd hin (by simp)
  · -- conversely each of these four has an entry under its key
    intro k
    rw [OrderedMap.find?_ofList, findList_isSome_iff]
    -- the list is sums, other aggregates, classes and the count, in this order
    constructor
    · rintro ⟨v, hin⟩
      simp only [List.mem_append, List.mem_map, List.mem_filter, Prod.mk.injEq] at hin
      rcases hin with ((⟨it, ⟨hit, hsum⟩, rfl, -⟩ | hin) | ⟨ct, hct, rfl, -⟩) | hin
      · exact Or.inl ⟨hsum, it, hit, rfl⟩
      · obtain ⟨it, hit, op, -, hop, hek, -⟩ := hmem _ hin
        have hek : k = aggkey op it.name := hek
        subst hek
        exact Or.inl ⟨hop, it, hit, rfl⟩
      · refine Or.inr (Or.inl ⟨rfl, ?_⟩)
        show (S.class_cols_.find? ct.1).isSome = true
        rw [OrderedMap.mem_entries.mp (show (ct.1, ct.2) ∈ S.class_cols_.entries from hct)]
        rfl
      · split at hin
        · rename_i hne
          obtain ⟨rfl, -⟩ := Prod.mk.injEq .. ▸ List.mem_singleton.mp hin
          exact Or.inr (Or.inr ⟨rfl, hne, rfl⟩)
        · exact absurd hin (by simp)
    · rintro (⟨hop, it, hit, hname⟩ | ⟨hcls, hhas⟩ | ⟨hcnt, hne, hf⟩)
      · by_cases hsum : k.oper = .SUM
        · refine ⟨it.value, ?_⟩
          simp only [List.mem_append, List.mem_map, List.mem_filter, Prod.mk.injEq]
          refine Or.inl (Or.inl (Or.inl ⟨it, ⟨hit, ?_⟩, ?_, rfl⟩))
          · rw [hsum, ← hname] at hop
            exact hop
          · rw [hname, ← hsum]
            rfl
        · obtain ⟨r, hr, -, hspec⟩ := otherAggs_spec h hit
          obtain ⟨e, he, hek⟩ := hspec k.oper hsum (hname ▸ hop)
          have hek : e.1 = k := by rw [hek, hname]; rfl
          refine ⟨e.2, ?_⟩
          simp only [List.mem_append]
          refine Or.inl (Or.inl (Or.inr ((mem_collectM hothers).mpr ⟨it, hit, r, hr, ?_⟩)))
          rw [← hek]
          exact he
      · obtain ⟨x, hx⟩ := Option.isSome_iff_exists.mp
          (show (S.class_cols_.find? (AggKey.field k)).isSome = true from hhas)
        refine ⟨.uint64 (hash_range (buildHuniks u (AggKey.field k) row)), ?_⟩
        simp only [List.mem_append, List.mem_map, Prod.mk.injEq]
        refine Or.inl (Or.inr ⟨(AggKey.field k, x), OrderedMap.mem_entries.mpr hx, ?_, rfl⟩)
        rw [← hcls]
        rfl
      · refine ⟨.uint64 1, ?_⟩
        simp only [List.mem_append]
        refine Or.inr ?_
        rw [if_pos hne, List.mem_singleton, ← hf, ← hcnt]
        rfl

omit [LinearOrder δ] in
theorem loadsAs_of_uintRow {S : StatsSelect} {row : List (StatEntry δ)} (h : UIntRow S row) :
    LoadsAs (fun k v => WellTyped k.oper v) S row where
  plain it hit op hex hop := by
    obtain ⟨n, hn⟩ := h it hit op hop
    rw [hn]
    cases op <;> first | exact ⟨n, rfl⟩ | cases hex
  double it hit op _ hop := by
    obtain ⟨n, hn⟩ := h it hit op hop
    rw [hn]
    rfl
  centroid _ log := ⟨log, rfl⟩
  tdigest _ log := ⟨log, rfl⟩
  hash _ _ := trivial
  count _ n := ⟨n, rfl⟩

-- ---------------------------------------------------------------------------
-- Slots of the sort columns
-- ---------------------------------------------------------------------------

/-- `T` and `T=` exclude each other, so the constructor enters at most one
sort column. -/
def TimeSort (S : StatsSelect) : Prop :=
  (S.sort_cols_ = .empty ∧ S.isT_ = false ∧ S.ts_period_ = 0) ∨
  (S.sort_cols_ = OrderedMap.empty.insert STAT_TIME_FIELD 0 ∧ S.isT_ = true ∧ S.ts_period_ = 0) ∨
  (S.sort_cols_ = OrderedMap.empty.insert STAT_TIMEBIN_FIELD 0 ∧ S.isT_ = false ∧
    S.ts_period_ ≠ 0)

theorem addField_timeSort {S S' : StatsSelect} {field : String} (h : TimeSort S)
    (hadd : addField S field = some (some S')) : TimeSort S' := by
  rcases addField_cases hadd with ⟨rfl, hts, rfl⟩ | ⟨-, hisT, period, hper, rfl⟩ | ⟨-, hadds⟩
  · rcases h with ⟨hs, -, -⟩ | ⟨hs, -, -⟩ | ⟨-, -, hne⟩
    · exact Or.inr (Or.inl ⟨by rw [hs], rfl, hts⟩)
    · refine Or.inr (Or.inl ⟨?_, rfl, hts⟩)
      rw [hs]
      exact OrderedMap.ext_entries rfl
    · exact absurd hts hne
  · rcases h with ⟨hs, -, -⟩ | ⟨-, ht, -⟩ | ⟨hs, -, -⟩
    · exact Or.inr (Or.inr ⟨by rw [hs], hisT, hper⟩)
    · rw [ht] at hisT
      cases hisT
    · refine Or.inr (Or.inr ⟨?_, hisT, hper⟩)
      rw [hs]
      exact OrderedMap.ext_entries rfl
  · unfold TimeSort
    rw [hadds.sort_cols, hadds.isT, hadds.ts_period]
    exact h

theorem addFields_timeSort {S S' : StatsSelect} {fields : List String} (h : TimeSort S)
    (hadd : addFields S fields = some S') : TimeSort S' :=
  addFields_invariant (fun _ _ _ => addField_timeSort) (fun _ hS => hS) h hadd

/-- The slots given out so far are different and below the next position. -/
def SlotsBelow (S : StatsSelect) (st : Nat) : Prop :=
  (S.sort_cols_.entries.map Prod.snd).Nodup ∧ ∀ e ∈ S.sort_cols_.entries, e.2 < st

theorem SlotsBelow.insert {S : StatsSelect} {st : Nat} (h : SlotsBelow S st) (name : String) :
    SlotsBelow { S with sort_cols_ := S.sort_cols_.insert name st } (st + 1) := by
  show ((insertList name st S.sort_cols_.entries).map Prod.snd).Nodup ∧
    ∀ e ∈ insertList name st S.sort_cols_.entries, e.2 < st + 1
  rcases insertList_eq_or_perm name st S.sort_cols_.entries with heq | hp
  · rw [heq]
    exact ⟨h.1, fun e he => Nat.lt_succ_of_lt (h.2 e he)⟩
  · constructor
    · refine (hp.map Prod.snd).nodup_iff.mpr (List.nodup_cons.mpr ⟨?_, h.1⟩)
      intro hin
      obtain ⟨e, he, heq⟩ := List.mem_map.mp hin
      have := h.2 e he
      omega
    · intro e he
      rcases List.mem_cons.mp (hp.mem_iff.mp he) with rfl | he
      · exact Nat.lt_succ_self st
      · exact Nat.lt_succ_of_lt (h.2 e he)

theorem setSortFields_slots {known : String → Bool} {S S' : StatsSelect} {st : Nat}
    {names : List String} (h : SlotsBelow S st)
    (hset : setSortFields known S st names = some S') :
    (S'.sort_cols_.entries.map Prod.snd).Nodup := by
  obtain ⟨_, hslots⟩ := setSortFields_invariant (P := SlotsBelow)
    (fun _ _ name hS => hS.insert name)
    (fun _ _ _ hS => ⟨hS.1, fun e he => Nat.lt_succ_of_lt (hS.2 e he)⟩) h hset
  exact hslots.1

/-- The sort columns of a query have different slots. -/
theorem build_slots_nodup {known : String → Bool} {select_fields sort_fields : List String}
    {S : StatsSelect} (h : build known select_fields sort_fields = some S) :
    (S.sort_cols_.entries.map Prod.snd).Nodup := by
  obtain ⟨S₀, hS₀, hS⟩ := Option.bind_eq_some_iff.mp h
  unfold SetSortOrder at hS
  cases sort_fields with
  | nil =>
    have htime : TimeSort S₀ := addFields_timeSort (Or.inl ⟨rfl, rfl, rfl⟩) hS₀
    simp only [setSortFields, List.length_nil, ne_eq, not_true_eq_false, if_false,
      Option.some.injEq] at hS
    subst hS
    rcases htime with ⟨hs, -⟩ | ⟨hs, -⟩ | ⟨hs, -⟩
    · rw [hs]
      exact List.Pairwise.nil
    · rw [hs]
      exact List.pairwise_singleton _ _
    · rw [hs]
      exact List.pairwise_singleton _ _
  | cons name rest =>
    refine setSortFields_slots ⟨?_, ?_⟩ hS
    · exact List.Pairwise.nil
    · intro e he
      exact absurd he (by simp [OrderedMap.empty])

-- ---------------------------------------------------------------------------
-- Groups
-- ---------------------------------------------------------------------------

/-- The columns that make up a group when `T` is not selected. -/
def GroupColumn (S : StatsSelect) (n : String) : Prop :=
  S.unik_cols_.has n = true ∨ (n = STAT_TIMEBIN_FIELD ∧ S.ts_period_ ≠ 0)

omit [LinearOrder δ] [Numerics δ] in
theorem buildUniks_columns {S : StatsSelect} (hT : S.isT_ = false) {s : Sample δ} {n : String}
    (h : ((buildUniks S s).find? n).isSome = true) : GroupColumn S n := by
  rw [buildUniks, OrderedMap.find?_ofList, findList_isSome_iff] at h
  obtain ⟨v, hv⟩ := h
  simp only [unikPairs, hT, List.mem_append, List.mem_map, List.mem_filter, Prod.mk.injEq] at hv
  rcases hv with ((hv | hv) | hv) | ⟨it, ⟨-, hhas⟩, rfl, -⟩
  · split at hv
    · rename_i hhas
      obtain ⟨rfl, -⟩ := Prod.mk.injEq .. ▸ List.mem_singleton.mp hv
      exact Or.inl hhas
    · exact absurd hv (by simp)
  · exact absurd hv (by simp)
  · split at hv
    · rename_i hper
      obtain ⟨rfl, -⟩ := Prod.mk.injEq .. ▸ List.mem_singleton.mp hv
      exact Or.inr ⟨rfl, hper⟩
    · exact absurd hv (by simp)
  · exact Or.inl hhas

omit [LinearOrder δ] [Numerics δ] in
/-- A column that is not selected is in no group. -/
theorem buildUniks_find?_eq_none {S : StatsSelect} (hT : S.isT_ = false) {n : String}
    (hn : ¬ GroupColumn S n) (s : Sample δ) : (buildUniks S s).find? n = none := by
  by_contra hne
  exact hn (buildUniks_columns hT (Option.isSome_iff_ne_none.mpr hne))

/-- Every sort column has a slot in the key. -/
def SlotsInRange (S : StatsSelect) : Prop :=
  (∀ e ∈ S.sort_cols_.entries, e.2 ≤ S.hash_slot) ∧
    ∀ x ∈ S.agg_sort_cols_.entries, x.2 ≤ S.hash_slot

omit [LinearOrder δ] [Numerics δ] in
/-- `Merge` takes a column with the empty name for the field of a COUNT_DISTINCT;
no group has it unless it is selected. -/
theorem buildUniks_find?_blank {S : StatsSelect} (hT : S.isT_ = false)
    (hblank : S.unik_cols_.has "" = false) (s : Sample δ) : (buildUniks S s).find? "" = none := by
  refine buildUniks_find?_eq_none hT ?_ s
  rintro (hhas | ⟨heq, -⟩)
  · rw [hblank] at hhas
    cases hhas
  · exact absurd heq (by decide)

/-- The key tells groups apart: the hash stays in its slot, or every column of
the group is a sort column. -/
def KeepsHash (S : StatsSelect) : Prop :=
  (∀ e ∈ S.sort_cols_.entries, e.2 ≠ S.hash_slot) ∨
  ∀ n, GroupColumn S n → (S.sort_cols_.find? n).isSome = true

omit [LinearOrder δ] [Numerics δ] in
/-- A hash that no sort column overwrites tells groups apart. -/
theorem hash_eq_of_keyOf_eq {hash_range : StatMap δ → Fin (2 ^ 64)} {S : StatsSelect}
    (hfree : ∀ e ∈ S.sort_cols_.entries, e.2 ≠ S.hash_slot) {u u' : StatMap δ}
    (hk : (buildKey hash_range S u).isSome = true) (hk' : (buildKey hash_range S u').isSome = true)
    (heq : keyOf hash_range S u = keyOf hash_range S u') : hash_range u = hash_range u' := by
  have hlast : ∀ u : StatMap δ, (freshKey hash_range S u)[S.hash_slot]? =
      some (.uint64 (hash_range u)) := by
    intro u
    simp [freshKey]
  have h₁ := fillSlots_getElem?_of_not_mem (buildKey_eq_keyOf hash_range S hk) hfree
  have h₂ := fillSlots_getElem?_of_not_mem (buildKey_eq_keyOf hash_range S hk') hfree
  rw [hlast] at h₁ h₂
  rw [heq, h₂] at h₁
  simp only [Option.some.injEq, StatVal.uint64.injEq] at h₁
  exact h₁.symm

omit [LinearOrder δ] [Numerics δ] in
theorem keyOf_injective {hash_range : StatMap δ → Fin (2 ^ 64)} {S : StatsSelect}
    (hslots : (S.sort_cols_.entries.map Prod.snd).Nodup) (hT : S.isT_ = false)
    (hkeep : KeepsHash S) {s s' : Sample δ}
    (hinj : hash_range (buildUniks S s) = hash_range (buildUniks S s') →
      buildUniks S s = buildUniks S s')
    (hk : (buildKey hash_range S (buildUniks S s)).isSome = true)
    (hk' : (buildKey hash_range S (buildUniks S s')).isSome = true)
    (heq : keyOf hash_range S (buildUniks S s) = keyOf hash_range S (buildUniks S s')) :
    buildUniks S s = buildUniks S s' := by
  have hb := buildKey_eq_keyOf hash_range S hk
  have hb' := buildKey_eq_keyOf hash_range S hk'
  rcases hkeep with hfree | hsorted
  · exact hinj (hash_eq_of_keyOf_eq hfree hk hk' heq)
  · -- compare the slots of the sort columns
    refine OrderedMap.ext_find fun n => ?_
    cases hn : S.sort_cols_.find? n with
    | none =>
      have hcol : ¬ GroupColumn S n := fun h => by
        have := hsorted n h
        rw [hn] at this
        cases this
      rw [buildUniks_find?_eq_none hT hcol s, buildUniks_find?_eq_none hT hcol s']
    | some slot =>
      have hmem : (n, slot) ∈ S.sort_cols_.entries := OrderedMap.mem_entries.mpr hn
      have h₁ := fillSlots_getElem?_of_mem hb hslots hmem
      have h₂ := fillSlots_getElem?_of_mem hb' hslots hmem
      rw [heq] at h₁
      exact h₁.symm.trans h₂

-- ---------------------------------------------------------------------------
-- Distribution does not matter
-- ---------------------------------------------------------------------------

/-- An accepted SELECT without `T` and COUNT_DISTINCT. -/
structure MergedSelect (S : StatsSelect) : Prop where
  status : S.status_ = true
  noT : S.isT_ = false
  noDistinct : S.count_distinct_field_ = ""
  noBlank : S.unik_cols_.has "" = false

/-- A SELECT without `T`, COUNT_DISTINCT, AVG and PERCENTILES. -/
structure PlainSelect (S : StatsSelect) : Prop extends MergedSelect S where
  noAvg : ∀ n, S.avg_field_.has n = false
  noPercentiles : ∀ n, S.percentile_cols_.has n = false

omit [LinearOrder δ] [Numerics δ] in
theorem MergedSelect.find?_blank {S : StatsSelect} (h : MergedSelect S) (s : Sample δ) :
    (buildUniks S s).find? "" = none :=
  buildUniks_find?_blank h.noT h.noBlank s

/-- The row carries every aggregated column, as unsigned 64-bit values. -/
def CarriesAll (S : StatsSelect) (s : Sample δ) : Prop :=
  UIntRow S s.row ∧ ∀ op n, opCols S op n = true → HasColumn s.row n

/-- The entries stand under the key made of their own columns, so the multimap
lists them in the order of the sort fields. -/
def InOrder (hash_range : StatMap δ → Fin (2 ^ 64)) (S : StatsSelect) (m : MapBuf δ) : Prop :=
  ∀ e ∈ m.entries, finalKey hash_range S e.2 = some e.1

/-- Both runs give the same groups with the same SUM, COUNT, MAX and MIN, each in
the order of the sort fields. Or both stop at an assertion, on a sort column that
is missing: with every slot in range, neither wrote outside its key. -/
def SameResult (hash_range : StatMap δ → Fin (2 ^ 64)) (S : StatsSelect) :
    Option (MapBuf δ) → Option (MapBuf δ) → Prop
  | some m, some m' =>
    (m.entries.map fun e => rowView e.2).Perm (m'.entries.map fun e => rowView e.2) ∧
      InOrder hash_range S m ∧ InOrder hash_range S m'
  | none, none => SlotsInRange S
  | _, _ => False

/-- The distribution of the rows over chunks and instances does not show. -/
def Independent (δ : Type) [LinearOrder δ] [Numerics δ] (S : StatsSelect) : Prop :=
  ∀ (hash_range : StatMap δ → Fin (2 ^ 64)) (rows : List (Sample δ))
    (plan : List (List (List (Sample δ)))),
    (∀ s ∈ rows, CarriesAll S s) → plan.flatten.flatten.Perm rows →
    (∀ s ∈ rows, ∀ s' ∈ rows, hash_range (buildUniks S s) = hash_range (buildUniks S s') →
      buildUniks S s = buildUniks S s') →
    SameResult hash_range S (runQuery hash_range S 0 0 plan) (aggregateAtOnce hash_range S rows)

/-- The aggregates every row of the SELECT contributes to. -/
def Selected (S : StatsSelect) (k : AggKey) : Prop :=
  opCols S k.oper (AggKey.field k) = true ∨
  (k.oper = .CLASS ∧ S.class_cols_.has (AggKey.field k) = true) ∨
  (k.oper = .COUNT ∧ S.count_field_ ≠ "" ∧ AggKey.field k = S.count_field_)

section

variable {hash_range : StatMap δ → Fin (2 ^ 64)} {S : StatsSelect} {rows : List (Sample δ)}

omit [LinearOrder δ] in
theorem contribution_spec (hash_range : StatMap δ → Fin (2 ^ 64)) {s : Sample δ} (h : CarriesAll S s) :
    (buildAggs hash_range S (buildUniks S s) s.row).isSome = true ∧
      (∀ k v, (contribution hash_range S s).2.find? k = some v → WellTyped k.oper v) ∧
      ∀ k, ((contribution hash_range S s).2.find? k).isSome = true ↔ Selected S k := by
  obtain ⟨a, ha, htyped, hkeys⟩ := buildAggs_spec hash_range (buildUniks S s) (loadsAs_of_uintRow h.1)
  unfold contribution
  rw [ha]
  refine ⟨rfl, htyped, fun k => (hkeys k).trans ?_⟩
  unfold Contributes Selected
  constructor
  · rintro (⟨hop, -⟩ | hrest)
    · exact Or.inl hop
    · exact Or.inr hrest
  · rintro (hop | hrest)
    · exact Or.inl ⟨hop, h.2 _ _ hop⟩
    · exact Or.inr hrest

theorem regular_of_carriesAll (hst : S.status_ = true) (hT : S.isT_ = false)
    (hslots : (S.sort_cols_.entries.map Prod.snd).Nodup) (hkeep : KeepsHash S)
    (hcar : ∀ s ∈ rows, CarriesAll S s)
    (hinj : ∀ s ∈ rows, ∀ s' ∈ rows, hash_range (buildUniks S s) = hash_range (buildUniks S s') →
      buildUniks S s = buildUniks S s')
    (hkeys : ∀ s ∈ rows, (buildKey hash_range S (buildUniks S s)).isSome = true) :
    Regular hash_range S (AggregateOf (fun _ => True) (fun _ => Selected S)) rows where
  status := hst
  loadable s hs := ⟨hkeys s hs, (contribution_spec hash_range (hcar s hs)).1⟩
  separated s hs s' hs' heq :=
    keyOf_injective hslots hT hkeep (hinj s hs s' hs') (hkeys s hs) (hkeys s' hs') heq
  isTotal := aggregateOf_isTotal _ _
  single s hs := aggregateOf_singleton ⟨(contribution_spec hash_range (hcar s hs)).2.1,
    fun _ k _ => (contribution_spec hash_range (hcar s hs)).2.2 k⟩

/-- A row that does not load aborts every plan it is in. -/
theorem runQuery_eq_none (hst : S.status_ = true) {s : Sample δ}
    (hbad : ¬ Loadable hash_range S s) {plan : List (List (List (Sample δ)))}
    (hs : s ∈ plan.flatten.flatten) (chunkLimit limit : Nat) :
    runQuery hash_range S chunkLimit limit plan = none := by
  obtain ⟨chunk, hchunk, hs⟩ := List.mem_flatten.mp hs
  obtain ⟨chunks, hchunks, hchunk⟩ := List.mem_flatten.mp hchunk
  have hload : loadChunk hash_range S chunk = none :=
    foldlM_eq_none hs (fun out => loadRow_eq_none hash_range S hst hbad out) .empty
  have hinst : runInstance hash_range S chunkLimit chunks = none := by
    unfold runInstance
    refine foldlM_eq_none hchunk (fun out => ?_) _
    rw [hload]
    rfl
  unfold runQuery
  rw [mapM_eq_none hchunks hinst]
  rfl

/-- Every entry has exactly the selected aggregates. -/
theorem Holds.find?_isSome_iff {m : MapBuf δ} {cs : List (StatMap δ × AggRow δ)}
    (h : Holds hash_range S (AggregateOf (fun _ => True) (fun _ => Selected S)) m cs)
    (hcs : From hash_range S rows cs) (hcar : ∀ s ∈ rows, CarriesAll S s)
    {e : SortKey δ × (StatMap δ × AggRow δ)} (he : e ∈ m.entries) (k : AggKey) :
    (e.2.2.find? k).isSome = true ↔ Selected S k := by
  have htot := h.total e he
  by_cases hempty : e.2.2.isEmpty = true
  · obtain ⟨c, hc⟩ := List.exists_mem_of_ne_nil _ htot.ne_nil
    obtain ⟨s, hs, rfl⟩ := hcs c (mem_ofGroup.mp hc).1
    rw [← (contribution_spec hash_range (hcar s hs)).2.2 k,
      OrderedMap.isEmpty_iff.mp hempty k,
      OrderedMap.isEmpty_iff.mp (htot.isEmpty.mp hempty _ hc) k]
  · exact htot.row.keys (Bool.eq_false_iff.mpr hempty) k trivial

/-- The entries stand under keys that `LoadRow` built. -/
theorem Holds.buildKey_eq
    {Total : List (StatMap δ × AggRow δ) → StatMap δ × AggRow δ → Prop}
    (hR : Regular hash_range S Total rows) {m : MapBuf δ}
    {cs : List (StatMap δ × AggRow δ)} (h : Holds hash_range S Total m cs)
    (hcs : From hash_range S rows cs) {e : SortKey δ × (StatMap δ × AggRow δ)}
    (he : e ∈ m.entries) : buildKey hash_range S e.2.1 = some e.1 := by
  obtain ⟨c, hc, hce⟩ := h.exists_contribution hR.isTotal he
  obtain ⟨s, hs, rfl⟩ := hcs c hc
  rw [h.keyed.key_eq e he, ← hce]
  exact buildKey_eq_keyOf hash_range S (hR.loadable s hs).1

/-- Re-keyed entries stand under the keys of their own aggregates. -/
theorem rekeyEntries_inOrder {m : MapBuf δ}
    (hkey : ∀ e ∈ m.entries, buildKey hash_range S e.2.1 = some e.1)
    (hnd : (m.entries.map fun e => e.2.1).Nodup)
    (hfill : ∀ e ∈ m.entries,
      (fillSlots e.2.2.find? S.agg_sort_cols_.entries e.1).isSome = true) :
    ∃ out, rekeyEntries S m.entries .empty = some out ∧ InOrder hash_range S out ∧
      (out.entries.map Prod.snd).Perm (m.entries.map Prod.snd) := by
  obtain ⟨out, hout, hp⟩ := rekeyEntries_perm hfill hnd
  refine ⟨out, hout, ?_, ?_⟩
  · intro e he
    obtain ⟨e₀, he₀, rfl⟩ := List.mem_map.mp (hp.mem_iff.mp he)
    obtain ⟨ukey, hukey⟩ := Option.isSome_iff_exists.mp (hfill e₀ he₀)
    show (buildKey hash_range S e₀.2.1).bind _ = _
    rw [hkey e₀ he₀, hukey]
    exact hukey
  · refine (hp.map Prod.snd).trans (List.Perm.of_eq ?_)
    rw [List.map_map]
    rfl

omit [Numerics δ] in
theorem inOrder_of_noAggSort (hagg : S.agg_sort_cols_.isEmpty = true) {m : MapBuf δ}
    (hkey : ∀ e ∈ m.entries, buildKey hash_range S e.2.1 = some e.1) : InOrder hash_range S m := by
  intro e he
  unfold finalKey
  rw [hkey e he, show S.agg_sort_cols_.entries = [] from List.isEmpty_iff.mp hagg]
  rfl

/-- `MergeFinal`'s re-keying of two multimaps with the same totals. -/
theorem sameResult_rekey (hrange : SlotsInRange S) {m m' : MapBuf δ} (hnd : (m.entries.map fun e => e.2.1).Nodup)
    (hnd' : (m'.entries.map fun e => e.2.1).Nodup)
    (hkey : ∀ e ∈ m.entries, buildKey hash_range S e.2.1 = some e.1)
    (hkey' : ∀ e ∈ m'.entries, buildKey hash_range S e.2.1 = some e.1)
    (hsel : ∀ e ∈ m.entries, ∀ k, (e.2.2.find? k).isSome = true ↔ Selected S k)
    (hsel' : ∀ e ∈ m'.entries, ∀ k, (e.2.2.find? k).isSome = true ↔ Selected S k)
    (hview : (m.entries.map fun e => (e.1, rowView e.2)) =
      m'.entries.map fun e => (e.1, rowView e.2)) :
    SameResult hash_range S (rekeyEntries S m.entries .empty)
      (rekeyEntries S m'.entries .empty) := by
  -- whether an entry can be re-keyed does not depend on the entry
  have hfill : ∀ {m : MapBuf δ}, (∀ e ∈ m.entries, buildKey hash_range S e.2.1 = some e.1) →
      (∀ e ∈ m.entries, ∀ k, (e.2.2.find? k).isSome = true ↔ Selected S k) → ∀ e ∈ m.entries,
      ((fillSlots e.2.2.find? S.agg_sort_cols_.entries e.1).isSome = true ↔
        ∀ x ∈ S.agg_sort_cols_.entries, Selected S x.1 ∧ x.2 < S.hash_slot + 1) := by
    intro m hkey hsel e he
    rw [fillSlots_isSome_iff, buildKey_length hash_range S (hkey e he)]
    exact forall_congr' fun x => forall_congr' fun _ => and_congr_left' (hsel e he x.1)
  have hout : ∀ {m : MapBuf δ}, (∀ e ∈ m.entries, buildKey hash_range S e.2.1 = some e.1) →
      (m.entries.map fun e => e.2.1).Nodup →
      (∀ e ∈ m.entries, (fillSlots e.2.2.find? S.agg_sort_cols_.entries e.1).isSome = true) →
      ∃ out, rekeyEntries S m.entries .empty = some out ∧ InOrder hash_range S out ∧
        (out.entries.map fun e => rowView e.2).Perm (m.entries.map fun e => rowView e.2) := by
    intro m hkey hnd hfill
    obtain ⟨out, hout, hord, hp⟩ := rekeyEntries_inOrder hkey hnd hfill
    refine ⟨out, hout, hord, ?_⟩
    have hview := hp.map rowView
    rwa [List.map_map, List.map_map] at hview
  have hrows : (m.entries.map fun e => rowView e.2) = m'.entries.map fun e => rowView e.2 := by
    have := congrArg (List.map Prod.snd) hview
    rwa [List.map_map, List.map_map] at this
  by_cases hok : ∀ x ∈ S.agg_sort_cols_.entries, Selected S x.1 ∧ x.2 < S.hash_slot + 1
  · obtain ⟨out, ho, hord, hp⟩ := hout hkey hnd fun e he => (hfill hkey hsel e he).mpr hok
    obtain ⟨out', ho', hord', hp'⟩ := hout hkey' hnd' fun e he => (hfill hkey' hsel' e he).mpr hok
    rw [ho, ho']
    exact ⟨hp.trans (hrows ▸ hp'.symm), hord, hord'⟩
  · have hnone : ∀ {m : MapBuf δ}, (∀ e ∈ m.entries, buildKey hash_range S e.2.1 = some e.1) →
        (∀ e ∈ m.entries, ∀ k, (e.2.2.find? k).isSome = true ↔ Selected S k) →
        m.entries ≠ [] → rekeyEntries S m.entries .empty = none := by
      intro m hkey hsel hne
      obtain ⟨e, he⟩ := List.exists_mem_of_ne_nil _ hne
      refine rekeyEntries_eq_none he ?_ .empty
      rw [← Option.not_isSome_iff_eq_none]
      exact fun h => hok ((hfill hkey hsel e he).mp h)
    have hlen := congrArg List.length hrows
    rw [List.length_map, List.length_map] at hlen
    by_cases hne : m.entries = []
    · have hne' : m'.entries = [] := List.length_eq_zero_iff.mp (by rw [← hlen, hne]; rfl)
      rw [hne, hne']
      exact ⟨List.Perm.refl _, fun e he => absurd he (by simp [Multimap.empty]),
        fun e he => absurd he (by simp [Multimap.empty])⟩
    · have hne' : m'.entries ≠ [] := fun h => hne (List.length_eq_zero_iff.mp (by rw [hlen, h]; rfl))
      rw [hnone hkey hsel hne, hnone hkey' hsel' hne']
      exact hrange

end

theorem independent_of_keepsHash {S : StatsSelect} (hplain : PlainSelect S)
    (hslots : (S.sort_cols_.entries.map Prod.snd).Nodup) (hrange : SlotsInRange S)
    (hkeep : KeepsHash S) : Independent δ S := by
  intro hash_range rows plan hcar hperm hinj
  by_cases hkeys : ∀ s ∈ rows, (buildKey hash_range S (buildUniks S s)).isSome = true
  swap
  · -- a row whose key cannot be built aborts both runs
    push Not at hkeys
    obtain ⟨s, hs, hbad⟩ := hkeys
    have hbad : ¬ Loadable hash_range S s := fun h => hbad h.1
    have hone : s ∈ [[rows]].flatten.flatten := by simpa using hs
    rw [runQuery_eq_none hplain.status hbad (hperm.mem_iff.mpr hs), aggregateAtOnce,
      runQuery_eq_none hplain.status hbad hone]
    exact hrange
  have hR := regular_of_carriesAll hplain.status hplain.noT hslots hkeep hcar hinj hkeys
  have hblank : ∀ s ∈ rows, (buildUniks S s).find? "" = none := fun s _ => hplain.find?_blank s
  have hfield : ∀ s ∈ rows, (buildUniks S s).find? S.count_distinct_field_ = none := by
    rw [hplain.noDistinct]
    exact hblank
  have hsub := mem_rows_of_perm hperm
  have hsub₀ : ∀ chunks ∈ [[rows]], ∀ chunk ∈ chunks, ∀ s ∈ chunk, s ∈ rows :=
    mem_rows_of_perm (by simp)
  obtain ⟨ms, m, hms, hm, hrep⟩ := runQuery_merged hR hblank hfield 0 hsub
  obtain ⟨ms₀, m₀, hms₀, hm₀, hrep₀⟩ := runQuery_merged hR hblank hfield 0 hsub₀
  have hfrom : ∀ l : List (Sample δ), (∀ s ∈ l, s ∈ rows) →
      From hash_range S rows (l.map (contribution hash_range S)) := by
    intro l hl c hc
    obtain ⟨s, hs, rfl⟩ := List.mem_map.mp hc
    exact ⟨s, hl s hs, rfl⟩
  rw [keptAll_zero hR hsub] at hrep
  rw [keptAll_zero hR hsub₀] at hrep₀
  have hfromP := hfrom plan.flatten.flatten fun s hs => hperm.mem_iff.mp hs
  have hfrom₀ := hfrom [[rows]].flatten.flatten fun s hs => by simpa using hs
  have hview := represents_unique hR.isTotal (AggregateOf.rowView_eq fun _ _ => trivial) hrep hrep₀
    (List.Perm.map _ (hperm.trans (by simp)))
  unfold aggregateAtOnce runQuery MergeFinal
  rw [hms, hms₀]
  simp only [Option.bind_eq_bind, Option.bind_some, hm, hm₀, applyLimit]
  by_cases hagg : S.agg_sort_cols_.isEmpty = true
  · simp only [hagg, if_true, Option.bind_some]
    refine ⟨List.Perm.of_eq ?_,
      inOrder_of_noAggSort hagg fun e he => Holds.buildKey_eq hR hrep hfromP he,
      inOrder_of_noAggSort hagg fun e he => Holds.buildKey_eq hR hrep₀ hfrom₀ he⟩
    have := congrArg (List.map Prod.snd) hview
    rwa [List.map_map, List.map_map] at this
  · simp only [hagg]
    have hsame := sameResult_rekey hrange hrep.keyed.nodup_groups hrep₀.keyed.nodup_groups
      (fun e he => Holds.buildKey_eq hR hrep hfromP he)
      (fun e he => Holds.buildKey_eq hR hrep₀ hfrom₀ he)
      (fun e he => Holds.find?_isSome_iff hrep hfromP hcar he)
      (fun e he => Holds.find?_isSome_iff hrep₀ hfrom₀ hcar he) hview
    cases h₁ : rekeyEntries S m.entries .empty <;> cases h₂ : rekeyEntries S m₀.entries .empty <;>
      simpa [h₁, h₂] using hsame

-- ---------------------------------------------------------------------------
-- When a sort column sits on the hash
-- ---------------------------------------------------------------------------

/-- Every plain sort column is selected. -/
def SortsSelected (S : StatsSelect) : Prop :=
  ∀ e ∈ S.sort_cols_.entries, GroupColumn S e.1

/-- The columns the SELECT reads. -/
def columnNames (S : StatsSelect) : List String :=
  (S.unik_cols_.entries ++ S.sum_cols_.entries ++ S.max_field_.entries ++
    S.min_field_.entries).map Prod.fst

/-- A row with all columns, the same for both flags except in column `c`. -/
def probe (δ : Type) (S : StatsSelect) (c : String) (b : Bool) : Sample δ where
  u := if c = STAT_UUID_FIELD ∧ b = true then 1 else 0
  timestamp := if c = STAT_TIMEBIN_FIELD ∧ b = true then S.ts_period_ else 0
  row := (columnNames S).map fun n => ⟨n, .uint64 (if n = c ∧ b = true then 1 else 0)⟩

omit [LinearOrder δ] [Numerics δ] in
theorem has_mem_names {S : StatsSelect} {set : StringSet} {n : String} (h : set.has n = true)
    (hsub : ∀ e ∈ set.entries, e ∈ S.unik_cols_.entries ++ S.sum_cols_.entries ++
      S.max_field_.entries ++ S.min_field_.entries) : n ∈ columnNames S := by
  obtain ⟨x, hx⟩ := Option.isSome_iff_exists.mp h
  exact List.mem_map.mpr ⟨(n, x), hsub _ (OrderedMap.mem_entries.mpr hx), rfl⟩

omit [LinearOrder δ] [Numerics δ] in
theorem probe_carriesAll {S : StatsSelect} (hplain : PlainSelect S) (c : String) (b : Bool) :
    CarriesAll S (probe δ S c b) := by
  refine ⟨?_, ?_⟩
  · intro it hit op _
    obtain ⟨n, -, rfl⟩ := List.mem_map.mp hit
    exact ⟨_, rfl⟩
  · intro op n hop
    have hname : n ∈ columnNames S := by
      cases op with
      | SUM => exact has_mem_names hop fun e he => by simp [he]
      | MAX => exact has_mem_names hop fun e he => by simp [he]
      | MIN => exact has_mem_names hop fun e he => by simp [he]
      | AVG => exact absurd hop (by simp [opCols, hplain.noAvg])
      | PERCENTILES => exact absurd hop (by simp [opCols, hplain.noPercentiles])
      | INVALID | COUNT | CLASS | COUNT_DISTINCT => cases hop
    exact ⟨_, List.mem_map.mpr ⟨n, hname, rfl⟩, rfl⟩

omit [LinearOrder δ] [Numerics δ] in
theorem probe_find?_isSome {S : StatsSelect} {c n : String} {b : Bool} (hn : GroupColumn S n) :
    ((buildUniks S (probe δ S c b)).find? n).isSome = true := by
  rw [buildUniks, OrderedMap.find?_ofList, findList_isSome_iff]
  rcases hn with hhas | ⟨rfl, hper⟩
  · have hname : n ∈ columnNames S := has_mem_names hhas fun e he => by simp [he]
    refine ⟨.uint64 (if n = c ∧ b = true then 1 else 0), ?_⟩
    refine List.mem_append_right _ (List.mem_map.mpr
      ⟨⟨n, .uint64 (if n = c ∧ b = true then 1 else 0)⟩, List.mem_filter.mpr ⟨?_, hhas⟩, rfl⟩)
    exact List.mem_map.mpr ⟨n, hname, rfl⟩
  · refine ⟨.uint64 ((probe δ S c b).timestamp - (probe δ S c b).timestamp % S.ts_period_),
      List.mem_append_left _ (List.mem_append_right _ ?_)⟩
    rw [if_pos hper]
    exact List.mem_singleton_self _

omit [LinearOrder δ] [Numerics δ] in
/-- Off the column `c` the two probes have the same group. -/
theorem probe_find?_eq {S : StatsSelect} (hT : S.isT_ = false) {c n : String} (hn : n ≠ c) :
    (buildUniks S (probe δ S c false)).find? n = (buildUniks S (probe δ S c true)).find? n := by
  have hrow : ∀ names : List String, ∀ b b' : Bool,
      findList n (((names.map fun m => (⟨m, .uint64 (if m = c ∧ b = true then 1 else 0)⟩ :
        StatEntry δ)).filter fun it => S.unik_cols_.has it.name).map fun it => (it.name, it.value)) =
      findList n (((names.map fun m => (⟨m, .uint64 (if m = c ∧ b' = true then 1 else 0)⟩ :
        StatEntry δ)).filter fun it => S.unik_cols_.has it.name).map
          fun it => (it.name, it.value)) := by
    intro names b b'
    induction names with
    | nil => rfl
    | cons m names ih =>
      rw [List.map_cons, List.map_cons, List.filter_cons, List.filter_cons]
      simp only
      by_cases hhas : S.unik_cols_.has m = true
      · rw [if_pos hhas, if_pos hhas, List.map_cons, List.map_cons, findList, findList]
        by_cases hnm : n = m
        · have hmc : ¬ m = c := fun h => hn (hnm.trans h)
          simp [hmc, hnm]
        · rw [if_neg hnm, if_neg hnm]
          exact ih
      · rw [if_neg hhas, if_neg hhas]
        exact ih
  rw [buildUniks, buildUniks, OrderedMap.find?_ofList, OrderedMap.find?_ofList]
  unfold unikPairs
  rw [findList_append, findList_append, findList_append, findList_append, findList_append,
    findList_append]
  congr 1
  · congr 1
    · congr 1
      by_cases huuid : n = STAT_UUID_FIELD
      · have hc : ¬ c = STAT_UUID_FIELD := fun h => hn (huuid.trans h.symm)
        simp [probe, hc]
      · split
        · simp [findList, huuid]
        · rfl
      · rw [if_neg (by simp [hT]), if_neg (by simp [hT])]
    · by_cases hbin : n = STAT_TIMEBIN_FIELD
      · have hc : ¬ c = STAT_TIMEBIN_FIELD := fun h => hn (hbin.trans h.symm)
        simp [probe, hc]
      · split
        · simp [findList, hbin]
        · rfl
  · exact hrow (columnNames S) false true

omit [LinearOrder δ] [Numerics δ] in
/-- In column `c` the two probes differ. -/
theorem probe_find?_ne {S : StatsSelect} (hT : S.isT_ = false) {c : String}
    (hc : GroupColumn S c) :
    (buildUniks S (probe δ S c false)).find? c ≠ (buildUniks S (probe δ S c true)).find? c := by
  -- what a column holds is 0 in one probe and not in the other
  have hmem : ∀ b v, (buildUniks S (probe δ S c b)).find? c = some v →
      (b = false → v = .uuid 0 ∨ v = .uint64 0) ∧ (b = true → v ≠ .uuid 0 ∧ v ≠ .uint64 0) := by
    intro b v hv
    rw [buildUniks, OrderedMap.find?_ofList] at hv
    have hin := mem_of_findList hv
    simp only [unikPairs, hT, List.mem_append, List.mem_map, List.mem_filter,
      Prod.mk.injEq] at hin
    have hzero : (0 : Fin (2 ^ 64)) % S.ts_period_ = 0 := by
      rw [Fin.ext_iff, Fin.mod_val]
      exact Nat.zero_mod _
    have hself : S.ts_period_ % S.ts_period_ = 0 := by
      rw [Fin.ext_iff, Fin.mod_val, Nat.mod_self]
      rfl
    have hcases : ∀ w w' : StatVal δ, (w = .uuid 0 ∨ w = .uint64 0) →
        (w' ≠ .uuid 0 ∧ w' ≠ .uint64 0) → v = (if b = true then w' else w) →
        (b = false → v = .uuid 0 ∨ v = .uint64 0) ∧ (b = true → v ≠ .uuid 0 ∧ v ≠ .uint64 0) := by
      intro w w' hw hw' hv
      subst hv
      cases b with
      | false => exact ⟨fun _ => hw, fun h => absurd h (by decide)⟩
      | true => exact ⟨fun h => absurd h (by decide), fun _ => hw'⟩
    -- the uuid, the time, and the columns themselves
    rcases hin with ((hin | hin) | hin) | ⟨it, ⟨hit, -⟩, hname, rfl⟩
    · split at hin
      · obtain ⟨rfl, rfl⟩ := Prod.mk.injEq .. ▸ List.mem_singleton.mp hin
        refine hcases (.uuid 0) (.uuid 1) (Or.inl rfl) ⟨by simp, by simp⟩ ?_
        cases b <;> rfl
      · exact absurd hin (by simp)
    · exact absurd hin (by simp)
    · split at hin
      · rename_i hper
        obtain ⟨rfl, rfl⟩ := Prod.mk.injEq .. ▸ List.mem_singleton.mp hin
        refine hcases (.uint64 0) (.uint64 S.ts_period_) (Or.inr rfl) ⟨by simp, ?_⟩ ?_
        · exact fun h => hper (StatVal.uint64.inj h)
        · cases b with
          | false => simp [probe, hzero]
          | true => simp [probe, hself]
      · exact absurd hin (by simp)
    · obtain ⟨n, -, hit⟩ := List.mem_map.mp hit
      subst hit
      have hname : n = c := hname
      subst hname
      refine hcases (.uint64 0) (.uint64 1) (Or.inr rfl) ⟨by simp, ?_⟩ ?_
      · exact fun h => absurd (StatVal.uint64.inj h) (by decide)
      · cases b <;> simp
  intro heq
  obtain ⟨v, hv⟩ := Option.isSome_iff_exists.mp (probe_find?_isSome (b := true) (δ := δ) (c := c) hc)
  have hfalse := (hmem false v (heq.trans hv)).1 rfl
  have htrue := (hmem true v hv).2 rfl
  exact hfalse.elim htrue.1 htrue.2

omit [LinearOrder δ] [Numerics δ] in
/-- With a sort column on the hash slot, the two probes have the same key. -/
theorem probe_buildKey_eq {S : StatsSelect} (hT : S.isT_ = false)
    (hslots : (S.sort_cols_.entries.map Prod.snd).Nodup) (hload : SortsSelected S)
    (hrange : SlotsInRange S) {e₀ : String × Nat} (he₀ : e₀ ∈ S.sort_cols_.entries) (hslot : e₀.2 = S.hash_slot)
    {c : String} (hc : S.sort_cols_.find? c = none) (hash_range : StatMap δ → Fin (2 ^ 64)) :
    ∃ ukey, ∀ b, buildKey hash_range S (buildUniks S (probe δ S c b)) = some ukey := by
  have hsome : ∀ b, (buildKey hash_range S (buildUniks S (probe δ S c b))).isSome = true := by
    intro b
    rw [buildKey_isSome_iff]
    exact fun e he => ⟨probe_find?_isSome (hload e he), hrange.1 e he⟩
  have hf := buildKey_eq_keyOf hash_range S (hsome false)
  have ht := buildKey_eq_keyOf hash_range S (hsome true)
  have hkeys : keyOf hash_range S (buildUniks S (probe δ S c true)) =
      keyOf hash_range S (buildUniks S (probe δ S c false)) := by
    refine List.ext_getElem? fun i => ?_
    by_cases hi : ∃ e ∈ S.sort_cols_.entries, e.2 = i
    · obtain ⟨e, he, rfl⟩ := hi
      have hne : e.1 ≠ c := by
        intro h
        rw [← h, OrderedMap.mem_entries.mp he] at hc
        cases hc
      rw [fillSlots_getElem?_of_mem ht hslots he, fillSlots_getElem?_of_mem hf hslots he,
        probe_find?_eq hT hne]
    · push Not at hi
      rw [fillSlots_getElem?_of_not_mem ht hi, fillSlots_getElem?_of_not_mem hf hi]
      have hi' : i ≠ S.hash_slot := fun h => hi e₀ he₀ (hslot.trans h.symm)
      unfold freshKey
      rcases Nat.lt_or_ge i S.hash_slot with hlt | hge
      · rw [List.getElem?_append_left (by simpa using hlt),
          List.getElem?_append_left (by simpa using hlt)]
      · have hout : ∀ v : StatVal δ,
            (List.replicate S.hash_slot StatVal.blank ++ [v])[i]? = none := by
          intro v
          refine List.getElem?_eq_none ?_
          simp only [List.length_append, List.length_replicate, List.length_singleton]
          omega
        rw [hout, hout]
  refine ⟨keyOf hash_range S (buildUniks S (probe δ S c false)), fun b => ?_⟩
  cases b with
  | false => exact hf
  | true => rw [ht, hkeys]

/-- Two rows of different groups under one key. -/
structure Collision (hash_range : StatMap δ → Fin (2 ^ 64)) (S : StatsSelect) (ukey : SortKey δ)
    (s₀ s₁ : Sample δ) : Prop where
  loadable₀ : Loadable hash_range S s₀
  loadable₁ : Loadable hash_range S s₁
  key₀ : keyOf hash_range S (buildUniks S s₀) = ukey
  key₁ : keyOf hash_range S (buildUniks S s₁) = ukey
  group_ne : buildUniks S s₀ ≠ buildUniks S s₁
  blank₀ : (buildUniks S s₀).find? "" = none
  blank₁ : (buildUniks S s₁).find? "" = none
  typed₁ : ∀ k v, (contribution hash_range S s₁).2.find? k = some v → WellTyped k.oper v

section

variable {hash_range : StatMap δ → Fin (2 ^ 64)} {S : StatsSelect} {ukey : SortKey δ}
  {s₀ s₁ : Sample δ}

/-- A multimap whose entries share one key and are, but for the first, of other
groups than the first goes through `Merge` unchanged. -/
theorem merge_collide (hash_range : StatMap δ → Fin (2 ^ 64)) {field : String} {b₀ : StatMap δ × AggRow δ}
    {bs : List (StatMap δ × AggRow δ)} (hblank : ∀ b ∈ b₀ :: bs, b.1.find? field = none)
    (hbs : ∀ b ∈ bs, sameUniks b₀ b = false) {m : MapBuf δ}
    (hm : m.entries = (b₀ :: bs).map fun b => (ukey, b)) :
    ∃ out, Merge hash_range field m .empty = some out ∧
      out.entries = (b₀ :: bs).map fun b => (ukey, b) := by
  have hnone : ∀ e ∈ m.entries, e.2.1.find? field = none := by
    intro e he
    rw [hm] at he
    obtain ⟨b, hb, rfl⟩ := List.mem_map.mp he
    exact hblank b hb
  obtain ⟨out, hout, he⟩ := mergeAll_collide_empty mergeAggs ukey hbs
  refine ⟨out, ?_, he⟩
  unfold Merge
  rw [mergeEntries_eq hnone, hm]
  exact hout

theorem mergeFinal_collide (hash_range : StatMap δ → Fin (2 ^ 64)) (hcd : S.count_distinct_field_ = "")
    (hagg : S.agg_sort_cols_.isEmpty = true) {b₀ : StatMap δ × AggRow δ}
    {bs : List (StatMap δ × AggRow δ)} (hblank : ∀ b ∈ b₀ :: bs, b.1.find? "" = none)
    (hbs : ∀ b ∈ bs, sameUniks b₀ b = false) {m : MapBuf δ}
    (hm : m.entries = (b₀ :: bs).map fun b => (ukey, b)) :
    ∃ out, MergeFinal hash_range S [m] = some out ∧ out.entries.length = bs.length + 1 := by
  obtain ⟨out, hout, he⟩ := merge_collide hash_range hblank hbs hm
  refine ⟨out, ?_, by rw [he]; simp⟩
  unfold MergeFinal mergeInputs
  simp [hcd, hout, hagg]

theorem Collision.sameUniks_eq_false (h : Collision hash_range S ukey s₀ s₁)
    {b : StatMap δ × AggRow δ} (hb : b.1 = buildUniks S s₁) :
    sameUniks (contribution hash_range S s₀) b = false := by
  rw [Bool.eq_false_iff]
  exact fun hs => h.group_ne (((sameUniks_iff _ _).mp hs).trans hb)

/-- All rows in one chunk: the second row of the second group meets the first
group's entry again and gets an entry of its own. -/
theorem Collision.atOnce (h : Collision hash_range S ukey s₀ s₁) (hst : S.status_ = true)
    (hcd : S.count_distinct_field_ = "") (hagg : S.agg_sort_cols_.isEmpty = true) :
    ∃ out, aggregateAtOnce hash_range S [s₀, s₁, s₁] = some out ∧ out.entries.length = 3 := by
  have hdiff : ∀ b ∈ [contribution hash_range S s₁, contribution hash_range S s₁],
      sameUniks (contribution hash_range S s₀) b = false := by
    simp [h.sameUniks_eq_false (b := contribution hash_range S s₁) rfl]
  have hblank : ∀ b ∈ contribution hash_range S s₀ ::
      [contribution hash_range S s₁, contribution hash_range S s₁], b.1.find? "" = none := by
    simp [contribution, h.blank₀, h.blank₁]
  obtain ⟨m, hm, he⟩ := mergeAll_collide_empty mergeAggs ukey hdiff
  have hload : loadChunk hash_range S [s₀, s₁, s₁] = some m := by
    rw [loadChunk_eq hst (by simp [h.loadable₀, h.loadable₁])]
    simp only [List.map_cons, List.map_nil, h.key₀, h.key₁]
    exact hm
  obtain ⟨m', hm', he'⟩ := merge_collide hash_range hblank hdiff he
  obtain ⟨out, hout, hlen⟩ := mergeFinal_collide hash_range hcd hagg hblank hdiff he'
  refine ⟨out, ?_, hlen⟩
  unfold aggregateAtOnce runQuery runInstance
  simp [hload, hm', hout, applyLimit]

/-- The second group's rows in a chunk of their own are merged there. -/
theorem Collision.split (h : Collision hash_range S ukey s₀ s₁) (hst : S.status_ = true)
    (hcd : S.count_distinct_field_ = "") (hagg : S.agg_sort_cols_.isEmpty = true) :
    ∃ out, runQuery hash_range S 0 0 [[[s₀], [s₁, s₁]]] = some out ∧ out.entries.length = 2 := by
  have hrow : RowTyped (fun _ => False) (fun _ => False) (contribution hash_range S s₁).2 :=
    ⟨h.typed₁, fun _ _ hf => absurd hf id⟩
  obtain ⟨b, hb, -⟩ := mergeAggs_total (K := fun _ _ => False) (aggregateOf_singleton hrow)
    (aggregateOf_singleton hrow) rfl
  have hgroup : b.1 = buildUniks S s₁ := by
    obtain ⟨r, -, rfl⟩ := Option.map_eq_some_iff.mp hb
    rfl
  have hdiff : ∀ x ∈ [b], sameUniks (contribution hash_range S s₀) x = false := by
    simp [h.sameUniks_eq_false hgroup]
  have hblank₀ : ∀ x ∈ contribution hash_range S s₀ :: [], x.1.find? "" = none := by
    simp [contribution, h.blank₀]
  have hblank : ∀ x ∈ contribution hash_range S s₀ :: [b], x.1.find? "" = none := by
    simp [contribution, h.blank₀, hgroup, h.blank₁]
  have hnil : ∀ x ∈ [], sameUniks (contribution hash_range S s₀) x = false := by simp
  -- the first chunk, and the instance's result after it
  obtain ⟨m, hm, he⟩ := mergeAll_collide_empty mergeAggs ukey hnil
  have hload₀ : loadChunk hash_range S [s₀] = some m := by
    rw [loadChunk_eq hst (by simp [h.loadable₀])]
    simp only [List.map_cons, List.map_nil, h.key₀]
    exact hm
  obtain ⟨r, hr, her⟩ := merge_collide hash_range hblank₀ hnil he
  -- the second chunk
  have hsame : sameUniks (contribution hash_range S s₁) (contribution hash_range S s₁) = true :=
    (sameUniks_iff _ _).mpr rfl
  obtain ⟨m₁, hload₁, he₁⟩ : ∃ m₁, loadChunk hash_range S [s₁, s₁] = some m₁ ∧
      m₁.entries = [b].map fun x => (ukey, x) := by
    refine ⟨(Multimap.empty.insert ukey (contribution hash_range S s₁)).replace ukey b, ?_, ?_⟩
    · rw [loadChunk_eq hst (by simp [h.loadable₁])]
      simp [Multimap.mergeAll, Multimap.mergeEntry, Multimap.find?, Multimap.insert,
        Multimap.empty, insertUpper, findList, hsame, hb, h.key₁]
    · simp [Multimap.replace, Multimap.insert, Multimap.empty, insertUpper, replaceFirst]
  obtain ⟨r', hr', her'⟩ := mergeAll_collide mergeAggs ukey hdiff her
  have hmerge : Merge hash_range "" m₁ r = some r' := by
    unfold Merge
    rw [mergeEntries_eq (by rw [he₁]; simp [hgroup, h.blank₁]), he₁]
    exact hr'
  obtain ⟨out, hout, hlen⟩ := mergeFinal_collide hash_range hcd hagg hblank hdiff her'
  refine ⟨out, ?_, hlen⟩
  unfold runQuery runInstance
  simp [hload₀, hload₁, hr, hmerge, hout, applyLimit]

end

/-- Two groups on one key show how their rows were distributed. -/
theorem not_independent_of_collision {S : StatsSelect} (hplain : PlainSelect S)
    (hslots : (S.sort_cols_.entries.map Prod.snd).Nodup)
    (hagg : S.agg_sort_cols_.isEmpty = true) (hload : SortsSelected S) (hrange : SlotsInRange S)
    (hkeep : ¬ KeepsHash S) : ¬ Independent δ S := by
  intro hind
  unfold KeepsHash at hkeep
  push Not at hkeep
  obtain ⟨⟨e₀, he₀, hslot⟩, c, hcol, hc⟩ := hkeep
  have hc : S.sort_cols_.find? c = none := by simpa using hc
  have hT := hplain.noT
  -- two rows that differ only in a column without a slot, and a hash that tells them apart
  let s₀ : Sample δ := probe δ S c false
  let s₁ : Sample δ := probe δ S c true
  have hne : buildUniks S s₀ ≠ buildUniks S s₁ := fun h =>
    probe_find?_ne hT hcol (by rw [show buildUniks S (probe δ S c false) = _ from h])
  let hash_range : StatMap δ → Fin (2 ^ 64) := fun m => if m = buildUniks S s₀ then 0 else 1
  obtain ⟨ukey, hukey⟩ := probe_buildKey_eq hT hslots hload hrange he₀ hslot hc hash_range
  have hkeyOf : ∀ b, keyOf hash_range S (buildUniks S (probe δ S c b)) = ukey := by
    intro b
    unfold keyOf
    rw [hukey b]
    rfl
  have hspec : ∀ b, _ := fun b =>
    contribution_spec hash_range (probe_carriesAll (δ := δ) hplain c b)
  -- both have one key, so the second group is inserted beside the first
  have hcol : Collision hash_range S ukey s₀ s₁ :=
    { loadable₀ := ⟨by rw [hukey false]; rfl, (hspec false).1⟩
      loadable₁ := ⟨by rw [hukey true]; rfl, (hspec true).1⟩
      key₀ := hkeyOf false
      key₁ := hkeyOf true
      group_ne := hne
      blank₀ := hplain.find?_blank _
      blank₁ := hplain.find?_blank _
      typed₁ := (hspec true).2.1 }
  -- three entries from one list, two from two chunks
  obtain ⟨out₃, hout₃, hlen₃⟩ := hcol.atOnce hplain.status hplain.noDistinct hagg
  obtain ⟨out₂, hout₂, hlen₂⟩ := hcol.split hplain.status hplain.noDistinct hagg
  have hcases : ∀ s ∈ [s₀, s₁, s₁], ∃ b, s = probe δ S c b := by
    intro s hs
    simp only [List.mem_cons, List.not_mem_nil, or_false] at hs
    rcases hs with rfl | rfl | rfl <;> exact ⟨_, rfl⟩
  have hres := hind hash_range [s₀, s₁, s₁] [[[s₀], [s₁, s₁]]]
    (fun s hs => by
      obtain ⟨b, rfl⟩ := hcases s hs
      exact probe_carriesAll hplain c b)
    (by simp)
    (fun s hs s' hs' heq => by
      obtain ⟨b, rfl⟩ := hcases s hs
      obtain ⟨b', rfl⟩ := hcases s' hs'
      cases b <;> cases b'
      · rfl
      · exact Eq.symm (by simpa [hash_range, s₀] using heq)
      · simpa [hash_range, s₀] using heq
      · rfl)
  rw [hout₂, hout₃] at hres
  have hlen := hres.1.length_eq
  rw [List.length_map, List.length_map, hlen₂, hlen₃] at hlen
  exact absurd hlen (by decide)

/-- A sort column behind the end of the key leaves a single row without a result. -/
theorem slotsInRange_of_independent {S : StatsSelect} (hplain : PlainSelect S)
    (hagg : S.agg_sort_cols_.isEmpty = true) (hind : Independent δ S) : SlotsInRange S := by
  by_contra hrange
  have haggs : S.agg_sort_cols_.entries = [] := List.isEmpty_iff.mp hagg
  obtain ⟨e, he, hslot⟩ : ∃ e ∈ S.sort_cols_.entries, S.hash_slot < e.2 := by
    by_contra hall
    push Not at hall
    exact hrange ⟨hall, fun x hx => absurd (haggs ▸ hx) List.not_mem_nil⟩
  let hash_range : StatMap δ → Fin (2 ^ 64) := fun _ => 0
  let s : Sample δ := probe δ S "" false
  have hbad : ¬ Loadable hash_range S s := by
    intro hload
    have hle := ((buildKey_isSome_iff hash_range S).mp hload.1 e he).2
    omega
  have hnone : runQuery hash_range S 0 0 [[[s]]] = none :=
    runQuery_eq_none hplain.status hbad (by simp) 0 0
  have hres := hind hash_range [s] [[[s]]]
    (fun s' hs' => by
      rw [List.mem_singleton.mp hs']
      exact probe_carriesAll hplain "" false)
    (by simp)
    (fun s' hs' s'' hs'' _ => by rw [List.mem_singleton.mp hs', List.mem_singleton.mp hs''])
  rw [aggregateAtOnce, hnone] at hres
  exact hrange hres

/-- Without a limit, every distribution of the rows gives the result of loading
them in one chunk, if every sort column has a slot and the key keeps its hash;
and among the plain sorts it does so only then. -/
theorem stats_independent_of_distribution {known : String → Bool}
    {select_fields sort_fields : List String} {S : StatsSelect}
    (hbuild : build known select_fields sort_fields = some S) (hplain : PlainSelect S) :
    (SlotsInRange S → KeepsHash S → Independent δ S) ∧
      (S.agg_sort_cols_.isEmpty = true → SortsSelected S →
        (Independent δ S ↔ SlotsInRange S ∧ KeepsHash S)) := by
  have hslots := build_slots_nodup hbuild
  refine ⟨independent_of_keepsHash hplain hslots, fun hagg hload => ⟨fun hind => ?_, ?_⟩⟩
  · have hrange := slotsInRange_of_independent hplain hagg hind
    refine ⟨hrange, ?_⟩
    by_contra hkeep
    exact not_independent_of_collision hplain hslots hagg hload hrange hkeep hind
  · rintro ⟨hrange, hkeep⟩
    exact independent_of_keepsHash hplain hslots hrange hkeep

/-- A hash in the manner of `boost::hash_combine`, over the entries in order. -/
def sampleHash (m : StatMap Nat) : Fin (2 ^ 64) :=
  m.entries.foldl
    (fun seed e =>
      let v : Nat := match e.2 with
        | .uint64 n => n
        | .uuid u => u
        | .string s => s.length
        | _ => 0
      Fin.ofNat (2 ^ 64) (31 * (31 * seed.val + e.1.length) + v + 1))
    0

/-- A row without time or identifier whose columns are unsigned numbers. -/
def numberRow (cols : List (String × Fin (2 ^ 64))) : Sample Nat :=
  { u := 0, timestamp := 0, row := cols.map fun c => ⟨c.1, .uint64 c.2⟩ }

theorem numberRow_uint (S : StatsSelect) (cols : List (String × Fin (2 ^ 64))) :
    UIntRow S (numberRow cols).row := by
  intro it hit op _
  obtain ⟨c, -, rfl⟩ := List.mem_map.mp hit
  exact ⟨c.2, rfl⟩

theorem stats_independent_sample :
    ∃ S, build (fun _ => true) ["a", "b", "SUM(x)"] ["b"] = some S ∧ PlainSelect S ∧
      SlotsInRange S ∧ KeepsHash S ∧ Independent Nat S := by
  have hplain : ∀ S, build (fun _ => true) ["a", "b", "SUM(x)"] ["b"] = some S → PlainSelect S := by
    intro S hS
    injection hS with hS
    subst hS
    exact ⟨⟨rfl, rfl, rfl, by decide⟩, fun n => rfl, fun n => rfl⟩
  have hkeep : ∀ S, build (fun _ => true) ["a", "b", "SUM(x)"] ["b"] = some S → KeepsHash S := by
    intro S hS
    injection hS with hS
    subst hS
    exact Or.inl (by decide)
  have hrange : ∀ S, build (fun _ => true) ["a", "b", "SUM(x)"] ["b"] = some S →
      SlotsInRange S := by
    intro S hS
    injection hS with hS
    subst hS
    exact ⟨by decide, by decide⟩
  obtain ⟨S, hS⟩ := Option.isSome_iff_exists.mp
    (show (build (fun _ => true) ["a", "b", "SUM(x)"] ["b"]).isSome = true by decide)
  exact ⟨S, hS, hplain S hS, hrange S hS, hkeep S hS,
    (stats_independent_of_distribution hS (hplain S hS)).1 (hrange S hS) (hkeep S hS)⟩

/-- The sort list `a, a, b` gives `b` the slot of the hash, and groups that
differ in `c` alone share a key: three entries for two groups, or two. -/
theorem repeated_sort_field_shows_distribution :
    ¬ ∀ (select_fields sort_fields : List String) (S : StatsSelect),
      build (fun _ => true) select_fields sort_fields = some S → PlainSelect S →
        Independent Nat S := by
  intro hclaim
  let r₁ := numberRow [("a", 1), ("b", 2), ("c", 3), ("x", 5)]
  let r₂ := numberRow [("a", 1), ("b", 2), ("c", 4), ("x", 7)]
  obtain ⟨S, hS⟩ := Option.isSome_iff_exists.mp (show (build (fun _ => true)
    ["a", "b", "c", "SUM(x)"] ["a", "a", "b"]).isSome = true by decide)
  have hplain : PlainSelect S ∧ ∀ op n, opCols S op n = true → n = "x" := by
    injection hS with hS
    subst hS
    refine ⟨⟨⟨rfl, rfl, rfl, by decide⟩, fun n => rfl, fun n => rfl⟩, fun op n hop => ?_⟩
    cases op with
    | SUM =>
      have hfind : ((OrderedMap.empty.insert "x" () : StringSet).find? n).isSome = true := hop
      rw [OrderedMap.find?_insert] at hfind
      by_contra hne
      simp [hne] at hfind
    | MAX | MIN | AVG | PERCENTILES => cases hop
    | INVALID | COUNT | CLASS | COUNT_DISTINCT => cases hop
  -- the rows have all columns, and the two groups hash apart
  have hrows : ∀ s ∈ [r₁, r₂, r₂], CarriesAll S s := by
    have hnumber : ∀ cols, (∃ c ∈ cols, c.1 = "x") → CarriesAll S (numberRow cols) := by
      intro cols hx
      refine ⟨numberRow_uint S cols, fun op n hop => ?_⟩
      obtain ⟨c, hc, hcx⟩ := hx
      rw [hplain.2 op n hop]
      exact ⟨_, List.mem_map_of_mem hc, hcx⟩
    intro s hs
    simp only [List.mem_cons, List.not_mem_nil, or_false] at hs
    rcases hs with rfl | rfl | rfl <;> exact hnumber _ (by decide)
  have hhash : ((build (fun _ => true) ["a", "b", "c", "SUM(x)"] ["a", "a", "b"]).map fun S =>
      decide (sampleHash (buildUniks S r₁) = sampleHash (buildUniks S r₂))) = some false := by
    decide +kernel
  -- as one list the rows make three entries, in two chunks two
  have hthree : ((build (fun _ => true) ["a", "b", "c", "SUM(x)"] ["a", "a", "b"]).bind fun S =>
      (aggregateAtOnce sampleHash S [r₁, r₂, r₂]).map fun m => m.entries.length) = some 3 := by
    decide +kernel
  have htwo : ((build (fun _ => true) ["a", "b", "c", "SUM(x)"] ["a", "a", "b"]).bind fun S =>
      (runQuery sampleHash S 0 0 [[[r₁], [r₂, r₂]]]).map fun m => m.entries.length) = some 2 := by
    decide +kernel
  simp only [hS, Option.map_some, Option.bind_some, Option.some.injEq, decide_eq_false_iff_not]
    at hhash hthree htwo
  obtain ⟨m₃, hm₃, hlen₃⟩ := Option.map_eq_some_iff.mp hthree
  obtain ⟨m₂, hm₂, hlen₂⟩ := Option.map_eq_some_iff.mp htwo
  have hres := hclaim _ _ S hS hplain.1 sampleHash [r₁, r₂, r₂] [[[r₁], [r₂, r₂]]] hrows (by simp)
    (by
      intro s hs s' hs' heq
      simp only [List.mem_cons, List.not_mem_nil, or_false, or_self] at hs hs'
      rcases hs with rfl | rfl <;> rcases hs' with rfl | rfl
      · rfl
      · exact absurd heq hhash
      · exact absurd heq.symm hhash
      · rfl)
  rw [hm₂, hm₃] at hres
  have hlen := hres.1.length_eq
  rw [List.length_map, List.length_map, hlen₂, hlen₃] at hlen
  exact absurd hlen (by decide)

end TfAnalytics.QueryEngine.StatsSelect
