import TfAnalytics.QueryEngine.StatsDistribution

/-!
# Query engine — limits of stats queries

`process_query` cuts every chunk to the limit before the chunks are merged,
`QueryFinalMerge` cuts the result once more.

* `limit_sound_iff`: when only plain columns sort, this gives the first rows of
  the whole result exactly if the rows of a group carry the same aggregated
  columns. A group among the first `L` of all groups is among the first `L` of
  every chunk it occurs in, so nothing it needs is cut.
* `kept_of_small`: a chunk with no more groups than the limit keeps everything.
-/

namespace TfAnalytics.QueryEngine.StatsSelect

open TfAnalytics.Lib

variable {δ : Type} [LinearOrder δ] [Numerics δ]

-- ---------------------------------------------------------------------------
-- The keys of a merged row
-- ---------------------------------------------------------------------------

/-- The entry has the keys of the first contribution that has any. -/
structure KeysOfFirst (cs : List (StatMap δ × AggRow δ)) (b : StatMap δ × AggRow δ) : Prop where
  ne_nil : cs ≠ []
  group_eq : ∀ c ∈ cs, c.1 = b.1
  typed : TypedRow b.2
  isEmpty : b.2.isEmpty = true ↔ ∀ c ∈ cs, c.2.isEmpty = true
  keys : ∀ c, cs.find? (fun c => !c.2.isEmpty) = some c →
    ∀ k, (b.2.find? k).isSome = true ↔ (c.2.find? k).isSome = true

theorem keysOfFirst_merge {cs cs' : List (StatMap δ × AggRow δ)} {b b' : StatMap δ × AggRow δ}
    (h : KeysOfFirst cs b) (h' : KeysOfFirst cs' b') (hg : b.1 = b'.1) :
    ∃ b'', mergeAggs b b' = some b'' ∧ KeysOfFirst (cs ++ cs') b'' := by
  have hgroup := group_eq_append h.group_eq h'.group_eq hg
  have hnil : cs ++ cs' ≠ [] := fun hnil => h.ne_nil (List.append_eq_nil_iff.mp hnil).1
  by_cases hempty : b.2.isEmpty = true
  · have hcs : ∀ c ∈ cs, c.2.isEmpty = true := h.isEmpty.mp hempty
    have hfind : cs.find? (fun c => !c.2.isEmpty) = none := by
      refine List.find?_eq_none.mpr fun c hc => ?_
      simp [hcs c hc]
    refine ⟨(b.1, b'.2), by simp [mergeAggs, MergeAggRow, hempty], hnil, hgroup, h'.typed, ?_, ?_⟩
    · rw [h'.isEmpty]
      simp only [List.mem_append]
      exact ⟨fun hall c hc => hc.elim (hcs c) (hall c), fun hall c hc => hall c (Or.inr hc)⟩
    · intro c hc
      rw [List.find?_append, hfind] at hc
      exact h'.keys c hc
  · have hne : b.2.isEmpty = false := Bool.eq_false_iff.mpr hempty
    obtain ⟨r, hr, htyped, hkeys, -⟩ := mergeAggRow_spec h.typed h'.typed hne
    have hsome : ∃ c ∈ cs, c.2.isEmpty = false := by
      have := mt h.isEmpty.mpr hempty
      push Not at this
      obtain ⟨c, hc, hcne⟩ := this
      exact ⟨c, hc, Bool.eq_false_iff.mpr hcne⟩
    refine ⟨(b.1, r), by simp [mergeAggs, hr], hnil, hgroup, htyped, ?_, ?_⟩
    · rw [isEmpty_eq_false_of_keys hne hkeys]
      obtain ⟨c, hc, hcne⟩ := hsome
      simp only [Bool.false_eq_true, false_iff, not_forall]
      exact ⟨c, List.mem_append_left _ hc, by simp [hcne]⟩
    · intro c hc k
      obtain ⟨c₀, hc₀, hc₀ne⟩ := hsome
      have hfind : (cs.find? fun c => !c.2.isEmpty).isSome = true :=
        List.find?_isSome.mpr ⟨c₀, hc₀, by simp [hc₀ne]⟩
      obtain ⟨c₁, hc₁⟩ := Option.isSome_iff_exists.mp hfind
      rw [List.find?_append, hc₁] at hc
      have hcc : c₁ = c := Option.some.inj hc
      rw [hkeys k, ← hcc]
      exact h.keys c₁ hc₁ k

theorem keysOfFirst_isTotal :
    IsTotal Prod.fst Prod.fst mergeAggs (KeysOfFirst (δ := δ)) where
  ne_nil h := h.ne_nil
  group_eq h := h.group_eq
  merge_group h := by
    obtain ⟨r, -, rfl⟩ := Option.map_eq_some_iff.mp h
    rfl
  merge_total := keysOfFirst_merge

omit [LinearOrder δ] [Numerics δ] in
theorem keysOfFirst_singleton {c : StatMap δ × AggRow δ} (h : TypedRow c.2) :
    KeysOfFirst [c] c := by
  refine ⟨List.cons_ne_nil _ _, fun d hd => ?_, h, by simp, fun d hd k => ?_⟩
  · rw [List.mem_singleton.mp hd]
  · rw [List.find?_singleton] at hd
    split at hd
    · rw [Option.some.inj hd]
    · cases hd

-- ---------------------------------------------------------------------------
-- Plain sorts
-- ---------------------------------------------------------------------------

/-- A query without `T` and COUNT_DISTINCT that sorts by plain columns only. -/
structure PlainSort (S : StatsSelect) : Prop extends MergedSelect S where
  noAggSort : S.agg_sort_cols_.isEmpty = true

/-- Different groups have different keys. -/
def KeysDistinct (hash_range : StatMap δ → Fin (2 ^ 64)) (S : StatsSelect)
    (rows : List (Sample δ)) : Prop :=
  ∀ s ∈ rows, ∀ s' ∈ rows, ∀ ukey, buildKey hash_range S (buildUniks S s) = some ukey →
    buildKey hash_range S (buildUniks S s') = some ukey → buildUniks S s = buildUniks S s'

/-- The rows of a result, in order. -/
def resultRows (m : MapBuf δ) : List (StatMap δ × AggRow δ) := m.entries.map fun e => rowView e.2

/-- Cutting every chunk and the result to `L` gives what cutting the result of
all rows does. Where both stop, it is at an assertion, and neither wrote outside
its key. -/
def LimitSound (hash_range : StatMap δ → Fin (2 ^ 64)) (S : StatsSelect)
    (rows : List (Sample δ)) : Prop :=
  ∀ (L : Nat) (plan : List (List (List (Sample δ)))), 0 < L → plan.flatten.flatten.Perm rows →
    (runQuery hash_range S L L plan).map resultRows =
        ((aggregateAtOnce hash_range S rows).map fun m => resultRows (applyLimit L m)) ∧
      (aggregateAtOnce hash_range S rows = none → SlotsInRange S)

/-- A row lacks one of the sort columns. -/
def SortColumnMissing (S : StatsSelect) (rows : List (Sample δ)) : Prop :=
  ∃ s ∈ rows, ∃ e ∈ S.sort_cols_.entries, (buildUniks S s).find? e.1 = none

/-- The rows of a group that contribute anything carry the same aggregated
columns. -/
def Uniform (hash_range : StatMap δ → Fin (2 ^ 64)) (S : StatsSelect)
    (rows : List (Sample δ)) : Prop :=
  ∀ s ∈ rows, ∀ s' ∈ rows, buildUniks S s = buildUniks S s' →
    (contribution hash_range S s).2.isEmpty = false →
    (contribution hash_range S s').2.isEmpty = false → ∀ k : AggKey, k.oper.exact = true →
      (((contribution hash_range S s).2.find? k).isSome = true ↔
        ((contribution hash_range S s').2.find? k).isSome = true)

/-- The exact aggregates of a group. -/
def groupKeys (hash_range : StatMap δ → Fin (2 ^ 64)) (S : StatsSelect) (rows : List (Sample δ))
    (u : StatMap δ) (k : AggKey) : Prop :=
  ∃ s ∈ rows, buildUniks S s = u ∧ ((contribution hash_range S s).2.find? k).isSome = true

section

variable {hash_range : StatMap δ → Fin (2 ^ 64)} {S : StatsSelect} {rows : List (Sample δ)}

omit [LinearOrder δ] in
theorem contribution_typed {s : Sample δ} (h : UIntRow S s.row) :
    (buildAggs hash_range S (buildUniks S s) s.row).isSome = true ∧
      TypedRow (contribution hash_range S s).2 := by
  obtain ⟨a, ha, htyped, -⟩ := buildAggs_spec hash_range (buildUniks S s) (loadsAs_of_uintRow h)
  unfold contribution
  rw [ha]
  exact ⟨rfl, htyped⟩

theorem regular_of_single {Total : List (StatMap δ × AggRow δ) → StatMap δ × AggRow δ → Prop}
    (hT : IsTotal Prod.fst Prod.fst mergeAggs Total) (hst : S.status_ = true)
    (hdist : KeysDistinct hash_range S rows) (huint : ∀ s ∈ rows, UIntRow S s.row)
    (hkeys : ∀ s ∈ rows, (buildKey hash_range S (buildUniks S s)).isSome = true)
    (hsingle : ∀ s ∈ rows, Total [contribution hash_range S s] (contribution hash_range S s)) :
    Regular hash_range S Total rows where
  status := hst
  loadable s hs := ⟨hkeys s hs, (contribution_typed (huint s hs)).1⟩
  separated s hs s' hs' heq := by
    refine hdist s hs s' hs' _ (buildKey_eq_keyOf hash_range S (hkeys s hs)) ?_
    rw [heq]
    exact buildKey_eq_keyOf hash_range S (hkeys s' hs')
  isTotal := hT
  single := hsingle

omit [LinearOrder δ] in
theorem uniform_single (huint : ∀ s ∈ rows, UIntRow S s.row) (huni : Uniform hash_range S rows)
    {s : Sample δ} (hs : s ∈ rows) :
    AggregateOf (fun k => k.oper.exact = true) (groupKeys hash_range S rows)
      [contribution hash_range S s] (contribution hash_range S s) := by
  refine aggregateOf_singleton ⟨(contribution_typed (huint s hs)).2, fun hne k hop => ⟨?_, ?_⟩⟩
  · exact fun hk => ⟨s, hs, rfl, hk⟩
  · rintro ⟨s', hs', hg, hk⟩
    have hne' : (contribution hash_range S s').2.isEmpty = false := by
      rw [Bool.eq_false_iff]
      intro hempty
      rw [OrderedMap.isEmpty_iff.mp hempty k] at hk
      cases hk
    exact (huni s hs s' hs' hg.symm hne hne' k hop).mpr hk

/-- Before re-keying, a plain sort has its result. -/
theorem runQuery_plain (hplain : PlainSort S)
    {Total : List (StatMap δ × AggRow δ) → StatMap δ × AggRow δ → Prop}
    (hR : Regular hash_range S Total rows) (chunkLimit limit : Nat)
    {plan : List (List (List (Sample δ)))}
    (hsub : ∀ chunks ∈ plan, ∀ chunk ∈ chunks, ∀ s ∈ chunk, s ∈ rows) :
    ∃ m, runQuery hash_range S chunkLimit limit plan = some (applyLimit limit m) ∧
      Holds hash_range S Total m (keptAll hash_range S chunkLimit plan) := by
  obtain ⟨ms, m, hms, hm, hrep⟩ := runQuery_merged hR (fun s _ => hplain.find?_blank s)
    (fun s _ => by rw [hplain.noDistinct]; exact hplain.find?_blank s) chunkLimit hsub
  refine ⟨m, ?_, hrep⟩
  unfold runQuery MergeFinal
  rw [hms]
  simp [hm, hplain.noAggSort]

/-- The rank argument: a group among the first `L` of all groups keeps all it
has in every chunk. -/
theorem ofGroup_keptAll {Total : List (StatMap δ × AggRow δ) → StatMap δ × AggRow δ → Prop}
    (hR : Regular hash_range S Total rows) {m₀ : MapBuf δ}
    (h₀ : Holds hash_range S Total m₀ (rows.map (contribution hash_range S))) {L : Nat}
    (hL : 0 < L) {plan : List (List (List (Sample δ)))}
    (hsub : ∀ chunks ∈ plan, ∀ chunk ∈ chunks, ∀ s ∈ chunk, s ∈ rows) {u : StatMap δ}
    (hu : keyOf hash_range S u ∈ (m₀.entries.map Prod.fst).take L) :
    ofGroup Prod.fst u (keptAll hash_range S L plan) =
      ofGroup Prod.fst u (keptAll hash_range S 0 plan) := by
  have hchunk : ∀ chunks ∈ plan, ∀ chunk ∈ chunks,
      ofGroup Prod.fst u (kept hash_range S L chunk) =
        ofGroup Prod.fst u (kept hash_range S 0 chunk) := by
    intro chunks hchunks chunk hchunk
    obtain ⟨m, hm, hrep⟩ := loadChunk_represents hR (hsub chunks hchunks chunk hchunk)
    -- the chunk's keys are keys of the whole result
    have hkeys : ∀ x ∈ m.entries.map Prod.fst, x ∈ m₀.entries.map Prod.fst := by
      intro x hx
      obtain ⟨e, he, rfl⟩ := List.mem_map.mp hx
      obtain ⟨c, hc, hce⟩ := hrep.exists_contribution hR.isTotal he
      obtain ⟨s, hs, rfl⟩ := List.mem_map.mp hc
      obtain ⟨e₀, he₀, hg⟩ := h₀.covered _
        (List.mem_map_of_mem (hsub chunks hchunks chunk hchunk s hs))
      refine List.mem_map.mpr ⟨e₀, he₀, ?_⟩
      rw [h₀.keyed.key_eq e₀ he₀, hrep.keyed.key_eq e he, hg, hce]
    have hstrict : ∀ {m : MapBuf δ} {cs}, Holds hash_range S Total m cs →
        (m.entries.map Prod.fst).Pairwise (· < ·) :=
      fun h => List.pairwise_map.mpr h.keyed.strict
    unfold kept
    rw [hm]
    simp only [ne_eq, hL.ne', not_false_eq_true, if_true, not_true_eq_false, if_false]
    unfold ofGroup
    rw [List.filter_filter]
    refine List.filter_congr fun c hc => ?_
    by_cases hcu : c.1 = u
    · obtain ⟨e, he, hg⟩ := hrep.covered c hc
      have hin : keyOf hash_range S c.1 ∈ m.entries.map Prod.fst := by
        rw [← hg, ← hrep.keyed.key_eq e he]
        exact List.mem_map_of_mem he
      have htake := mem_take_of_subset (hstrict hrep) (hstrict h₀) hkeys hin (hcu.symm ▸ hu)
      rw [← List.map_take, hcu] at htake
      simp only [hcu, htake, decide_true, Bool.and_self]
    · simp [hcu]
  unfold keptAll
  have hparts : ∀ chunks ∈ plan, ofGroup Prod.fst u (chunks.flatMap (kept hash_range S L)) =
      ofGroup Prod.fst u (chunks.flatMap (kept hash_range S 0)) := by
    intro chunks hchunks
    unfold ofGroup
    rw [List.filter_flatMap, List.filter_flatMap]
    exact List.flatMap_congr (hchunk chunks hchunks)
  unfold ofGroup at hparts ⊢
  rw [List.filter_flatten, List.filter_flatten, List.map_map, List.map_map]
  exact congrArg List.flatten (List.map_congr_left hparts)

/-- The first groups of all rows are the first groups of the merged chunks, and
have all their rows there. -/
theorem truncate_keys (hplain : PlainSort S)
    {Total : List (StatMap δ × AggRow δ) → StatMap δ × AggRow δ → Prop}
    (hR : Regular hash_range S Total rows) {L : Nat} (hL : 0 < L)
    {plan : List (List (List (Sample δ)))} (hperm : plan.flatten.flatten.Perm rows) :
    ∃ m m₀, runQuery hash_range S L L plan = some (applyLimit L m) ∧
      aggregateAtOnce hash_range S rows = some m₀ ∧
      Holds hash_range S Total m (keptAll hash_range S L plan) ∧
      Holds hash_range S Total m₀ (rows.map (contribution hash_range S)) ∧
      (∀ u, keyOf hash_range S u ∈ (m₀.entries.map Prod.fst).take L →
        (ofGroup Prod.fst u (keptAll hash_range S L plan)).Perm
          (ofGroup Prod.fst u (rows.map (contribution hash_range S)))) ∧
      (m.entries.map Prod.fst).take L = (m₀.entries.map Prod.fst).take L := by
  have hsub := mem_rows_of_perm hperm
  have hsub₀ : ∀ chunks ∈ [[rows]], ∀ chunk ∈ chunks, ∀ s ∈ chunk, s ∈ rows :=
    mem_rows_of_perm (by simp)
  obtain ⟨m, hm, hrep⟩ := runQuery_plain hplain hR L L hsub
  obtain ⟨m₀, hm₀, hrep₀⟩ := runQuery_plain hplain hR 0 0 hsub₀
  rw [keptAll_zero hR hsub₀] at hrep₀
  have hrows : [[rows]].flatten.flatten = rows := by simp
  rw [hrows] at hrep₀
  have hgroup : ∀ u, keyOf hash_range S u ∈ (m₀.entries.map Prod.fst).take L →
      (ofGroup Prod.fst u (keptAll hash_range S L plan)).Perm
        (ofGroup Prod.fst u (rows.map (contribution hash_range S))) := by
    intro u hu
    rw [ofGroup_keptAll hR hrep₀ hL hsub hu, keptAll_zero hR hsub]
    exact ofGroup_perm (hperm.map _)
  have hA : (m.entries.map Prod.fst).Pairwise (· < ·) := List.pairwise_map.mpr hrep.keyed.strict
  have hB : (m₀.entries.map Prod.fst).Pairwise (· < ·) := List.pairwise_map.mpr hrep₀.keyed.strict
  -- every group kept is a group of the rows
  have hAB : ∀ x ∈ m.entries.map Prod.fst, x ∈ m₀.entries.map Prod.fst := by
    intro x hx
    obtain ⟨e, he, rfl⟩ := List.mem_map.mp hx
    obtain ⟨c, hc, hce⟩ := hrep.exists_contribution hR.isTotal he
    obtain ⟨s, hs, rfl⟩ := From.flatten (keptParts_from hsub) c hc
    obtain ⟨e₀, he₀, hg⟩ := hrep₀.covered _ (List.mem_map_of_mem hs)
    refine List.mem_map.mpr ⟨e₀, he₀, ?_⟩
    rw [hrep₀.keyed.key_eq e₀ he₀, hrep.keyed.key_eq e he, hg, hce]
  -- the first groups of all rows are kept
  have hBA : ∀ x ∈ (m₀.entries.map Prod.fst).take L, x ∈ m.entries.map Prod.fst := by
    intro x hx
    obtain ⟨e₀, he₀, rfl⟩ := List.mem_map.mp (List.mem_of_mem_take hx)
    obtain ⟨c, hc, hce⟩ := hrep₀.exists_contribution hR.isTotal he₀
    rw [hrep₀.keyed.key_eq e₀ he₀] at hx ⊢
    have hc' := (hgroup _ hx).mem_iff.mpr (mem_ofGroup.mpr ⟨hc, hce⟩)
    obtain ⟨e, he, hg⟩ := hrep.covered c (mem_ofGroup.mp hc').1
    refine List.mem_map.mpr ⟨e, he, ?_⟩
    rw [hrep.keyed.key_eq e he, hg, hce]
  exact ⟨m, m₀, hm, hm₀, hrep, hrep₀, hgroup, take_eq_of_subset hA hB hAB hBA⟩

/-- Cutting the merged result gives the first rows of the whole result. -/
theorem limit_truncate (hplain : PlainSort S)
    (hR : Regular hash_range S
      (AggregateOf (fun k => k.oper.exact = true) (groupKeys hash_range S rows)) rows)
    {L : Nat} (hL : 0 < L) {plan : List (List (List (Sample δ)))}
    (hperm : plan.flatten.flatten.Perm rows) :
    (runQuery hash_range S L L plan).map resultRows =
      (aggregateAtOnce hash_range S rows).map fun m => resultRows (applyLimit L m) := by
  obtain ⟨m, m₀, hm, hm₀, hrep, hrep₀, hgroup, htake⟩ := truncate_keys hplain hR hL hperm
  -- entry by entry, the totals agree
  have hentries : ((m.entries.take L).map fun e => (e.1, rowView e.2)) =
      (m₀.entries.take L).map fun e => (e.1, rowView e.2) := by
    have hview : ∀ l : List (SortKey δ × (StatMap δ × AggRow δ)), KeysLt l →
        KeysLt (l.map fun e => (e.1, rowView e.2)) := fun l h => List.pairwise_map.mpr h
    rw [List.map_take, List.map_take]
    refine KeysLt.eq_of_subset ?_ ?_ ?_ ?_
    · exact List.Pairwise.sublist (List.take_sublist ..) (hview _ hrep.keyed.strict)
    · exact List.Pairwise.sublist (List.take_sublist ..) (hview _ hrep₀.keyed.strict)
    · rw [List.map_take, List.map_take, List.map_map, List.map_map]
      exact htake
    · intro x hx
      rw [← List.map_take] at hx
      obtain ⟨e, he, rfl⟩ := List.mem_map.mp hx
      have hkey : e.1 ∈ (m₀.entries.map Prod.fst).take L := by
        rw [← htake, ← List.map_take]
        exact List.mem_map_of_mem he
      have hin := List.mem_of_mem_take he
      refine KeysLt.mem_take (hview _ hrep₀.keyed.strict) ?_ (by rw [List.map_map]; exact hkey)
      refine hrep.mem_view hR.isTotal (AggregateOf.rowView_eq fun _ h => h) hrep₀ hin (hgroup _ ?_)
      rw [← hrep.keyed.key_eq e hin]
      exact hkey
  have hres := congrArg (List.map Prod.snd) hentries
  rw [List.map_map, List.map_map] at hres
  rw [hm, hm₀]
  simp only [Option.map_some, applyLimit, ne_eq, hL.ne', not_false_eq_true, if_true]
  exact congrArg some hres

theorem aggregateAtOnce_plain (hplain : PlainSort S)
    {Total : List (StatMap δ × AggRow δ) → StatMap δ × AggRow δ → Prop}
    (hR : Regular hash_range S Total rows) :
    ∃ m, aggregateAtOnce hash_range S rows = some m ∧
      Holds hash_range S Total m (rows.map (contribution hash_range S)) := by
  have hsub : ∀ chunks ∈ [[rows]], ∀ chunk ∈ chunks, ∀ s ∈ chunk, s ∈ rows :=
    mem_rows_of_perm (by simp)
  obtain ⟨m, hm, hrep⟩ := runQuery_plain hplain hR 0 0 hsub
  rw [keptAll_zero hR hsub, show [[rows]].flatten.flatten = rows by simp] at hrep
  exact ⟨m, hm, hrep⟩

/-- A chunk with no more groups than the limit keeps everything. -/
theorem kept_of_size_le {Total : List (StatMap δ × AggRow δ) → StatMap δ × AggRow δ → Prop}
    (hR : Regular hash_range S Total rows) {chunk : List (Sample δ)}
    (hsub : ∀ s ∈ chunk, s ∈ rows) {limit : Nat}
    (hsize : ∀ m, Holds hash_range S Total m (chunk.map (contribution hash_range S)) →
      m.size ≤ limit) :
    kept hash_range S limit chunk = chunk.map (contribution hash_range S) := by
  obtain ⟨m, hm, hrep⟩ := loadChunk_represents hR hsub
  have hall : m.entries.take limit = m.entries := List.take_of_length_le (hsize m hrep)
  unfold kept
  rw [hm]
  simp only [hall]
  split
  · refine List.filter_eq_self.mpr fun c hc => ?_
    obtain ⟨e, he, hg⟩ := hrep.covered c hc
    rw [decide_eq_true_iff, ← hg, ← hrep.keyed.key_eq e he]
    exact List.mem_map_of_mem he
  · rfl

/-- With room for every row, a row that is loaded first decides the keys of its
group, so a sound limit lets all rows of the group have them. -/
theorem keys_of_limitSound (hplain : PlainSort S)
    (hR : Regular hash_range S KeysOfFirst rows) (hsound : LimitSound hash_range S rows)
    {s : Sample δ} (hs : s ∈ rows) (hne : (contribution hash_range S s).2.isEmpty = false)
    {m₀ : MapBuf δ} (hm₀ : aggregateAtOnce hash_range S rows = some m₀)
    (h₀ : Holds hash_range S KeysOfFirst m₀ (rows.map (contribution hash_range S)))
    {e₀ : SortKey δ × (StatMap δ × AggRow δ)} (he₀ : e₀ ∈ m₀.entries)
    (hg₀ : e₀.2.1 = buildUniks S s) {k : AggKey} (hop : k.oper.exact = true) :
    ((contribution hash_range S s).2.find? k).isSome = true ↔ (e₀.2.2.find? k).isSome = true := by
  obtain ⟨l₁, l₂, hrows⟩ := List.append_of_mem hs
  have hperm : [[[s], l₁ ++ l₂]].flatten.flatten.Perm rows := by
    rw [hrows]
    simpa using List.perm_middle.symm
  have hlen : 0 < rows.length := List.length_pos_of_mem hs
  have hsub := mem_rows_of_perm hperm
  obtain ⟨m, hm, hrep⟩ := runQuery_plain hplain hR rows.length rows.length hsub
  have hlim := (hsound rows.length [[[s], l₁ ++ l₂]] hlen hperm).1
  -- nothing is cut
  have hsize : ∀ {m : MapBuf δ}, m.size ≤ rows.length → applyLimit rows.length m = m := by
    intro m h
    unfold applyLimit
    rw [if_pos hlen.ne']
    exact Multimap.ext_entries (List.take_of_length_le h)
  have hkept : ∀ chunk : List (Sample δ), (∀ x ∈ chunk, x ∈ rows) → chunk.length ≤ rows.length →
      kept hash_range S rows.length chunk = chunk.map (contribution hash_range S) := by
    intro chunk hck hle
    refine kept_of_size_le hR hck fun mc hrc => le_trans (hrc.size_le hR.isTotal) ?_
    rwa [List.length_map]
  have hlen' : (l₁ ++ l₂).length ≤ rows.length := by
    rw [hrows]
    simp
  have hcs : keptAll hash_range S rows.length [[[s], l₁ ++ l₂]] =
      contribution hash_range S s :: (l₁ ++ l₂).map (contribution hash_range S) := by
    unfold keptAll
    simp only [List.map_cons, List.map_nil, List.flatten_cons, List.flatten_nil, List.append_nil,
      List.flatMap_cons, List.flatMap_nil]
    rw [hkept [s] (by simpa using hs) hlen,
      hkept (l₁ ++ l₂) (hsub _ (List.mem_singleton_self _) _ (by simp)) hlen']
    simp
  rw [hcs] at hrep
  have hms : m.size ≤ rows.length := by
    refine le_trans (hrep.size_le hR.isTotal) ?_
    rw [hrows]
    simp only [List.length_append, List.length_cons, List.length_map]
    omega
  have hms₀ : m₀.size ≤ rows.length := by
    have := h₀.size_le hR.isTotal
    rwa [List.length_map] at this
  rw [hm, hm₀] at hlim
  simp only [Option.map_some, Option.some.injEq, hsize hms, hsize hms₀] at hlim
  -- the group's row of the result, in both
  have hrow₀ : rowView e₀.2 ∈ resultRows m := by
    rw [hlim]
    exact List.mem_map.mpr ⟨e₀, he₀, rfl⟩
  obtain ⟨e, he, hview⟩ := List.mem_map.mp hrow₀
  have hge : e.2.1 = buildUniks S s := by
    have hfst := congrArg (fun b : StatMap δ × AggRow δ => b.1) hview
    exact Eq.trans hfst hg₀
  have hagree : e.2.2.find? k = e₀.2.2.find? k := by
    have := congrArg (fun b : StatMap δ × AggRow δ => b.2.find? k) hview
    simpa only [rowView, OrderedMap.find?_filterKeys, hop, if_true] using this
  have hfirst : (ofGroup Prod.fst e.2.1 (contribution hash_range S s ::
      (l₁ ++ l₂).map (contribution hash_range S))).find? (fun c => !c.2.isEmpty) =
      some (contribution hash_range S s) := by
    have hgroup : (contribution hash_range S s).1 = e.2.1 := hge.symm
    unfold ofGroup
    rw [List.filter_cons_of_pos (by simp [hgroup]), List.find?_cons_of_pos (by simp [hne])]
  rw [← hagree]
  exact ((hrep.total e he).keys _ hfirst k).symm

end

omit [LinearOrder δ] [Numerics δ] in
/-- With every slot in range, a key fails for want of a sort column only. -/
theorem buildKey_eq_none_iff {hash_range : StatMap δ → Fin (2 ^ 64)} {S : StatsSelect}
    (hrange : SlotsInRange S) {u : StatMap δ} :
    buildKey hash_range S u = none ↔ ∃ e ∈ S.sort_cols_.entries, u.find? e.1 = none := by
  rw [← Option.not_isSome_iff_eq_none, buildKey_isSome_iff]
  push Not
  constructor
  · rintro ⟨e, he, hbad⟩
    refine ⟨e, he, ?_⟩
    by_contra hne
    have hlt := hbad (Option.isSome_iff_ne_none.mpr hne)
    have hle := hrange.1 e he
    omega
  · rintro ⟨e, he, hnone⟩
    exact ⟨e, he, fun hsome => by simp [hnone] at hsome⟩

/-- For a plain sort with every slot in range, cutting the chunks is sound exactly
when the rows of a group carry the same aggregated columns (or a row lacks a sort
column, and every run stops at the assertion). -/
theorem limit_sound_iff {hash_range : StatMap δ → Fin (2 ^ 64)} {S : StatsSelect}
    {rows : List (Sample δ)} (hplain : PlainSort S) (hdist : KeysDistinct hash_range S rows)
    (huint : ∀ s ∈ rows, UIntRow S s.row) :
    LimitSound hash_range S rows ↔
      rows = [] ∨ (SlotsInRange S ∧ (SortColumnMissing S rows ∨ Uniform hash_range S rows)) := by
  have haggs : S.agg_sort_cols_.entries = [] := List.isEmpty_iff.mp hplain.noAggSort
  by_cases hkeys : ∀ s ∈ rows, (buildKey hash_range S (buildUniks S s)).isSome = true
  swap
  · -- a row whose key cannot be built stops every run
    push Not at hkeys
    obtain ⟨s, hs, hbad⟩ := hkeys
    have hnone : buildKey hash_range S (buildUniks S s) = none := by simpa using hbad
    have hload : ¬ Loadable hash_range S s := fun h => hbad h.1
    have hone : s ∈ [[rows]].flatten.flatten := by simpa using hs
    have honce : aggregateAtOnce hash_range S rows = none :=
      runQuery_eq_none hplain.status hload hone 0 0
    constructor
    · intro hsound
      have hrange := (hsound 1 [[rows]] Nat.one_pos (by simp)).2 honce
      exact Or.inr ⟨hrange, Or.inl ⟨s, hs, (buildKey_eq_none_iff hrange).mp hnone⟩⟩
    · rintro (rfl | ⟨hrange, -⟩) L plan - hperm
      · exact absurd hs List.not_mem_nil
      · rw [runQuery_eq_none hplain.status hload (hperm.mem_iff.mpr hs), honce]
        exact ⟨rfl, fun _ => hrange⟩
  -- every key is built, so every slot a row needs is there
  have hrange : ∀ s ∈ rows, SlotsInRange S := by
    intro s hs
    refine ⟨fun e he => ((buildKey_isSome_iff hash_range S).mp (hkeys s hs) e he).2, ?_⟩
    exact fun x hx => absurd (haggs ▸ hx) List.not_mem_nil
  constructor
  · intro hsound
    have hR := regular_of_single keysOfFirst_isTotal hplain.status hdist huint hkeys
      fun s hs => keysOfFirst_singleton (contribution_typed (huint s hs)).2
    obtain ⟨m₀, hm₀, h₀⟩ := aggregateAtOnce_plain hplain hR
    by_cases hrows : rows = []
    · exact Or.inl hrows
    obtain ⟨s₀, hs₀⟩ := List.exists_mem_of_ne_nil rows hrows
    refine Or.inr ⟨hrange s₀ hs₀, Or.inr fun s hs s' hs' hg hne hne' k hop => ?_⟩
    obtain ⟨e₀, he₀, hg₀⟩ := h₀.covered _ (List.mem_map_of_mem hs)
    have hkeep := keys_of_limitSound hplain hR hsound hs hne hm₀ h₀ he₀ hg₀ hop
    have hkeep' := keys_of_limitSound hplain hR hsound hs' hne' hm₀ h₀ he₀ (hg₀.trans hg) hop
    exact hkeep.trans hkeep'.symm
  · intro hcond
    have huni : Uniform hash_range S rows := by
      rcases hcond with rfl | ⟨hrange, ⟨s, hs, hmissing⟩ | huni⟩
      · exact fun s hs => absurd hs List.not_mem_nil
      · have hnone : buildKey hash_range S (buildUniks S s) = none :=
          (buildKey_eq_none_iff hrange).mpr hmissing
        have hkey := hkeys s hs
        rw [hnone] at hkey
        cases hkey
      · exact huni
    have hR := regular_of_single (aggregateOf_isTotal _ _) hplain.status hdist huint hkeys
      fun s hs => uniform_single huint huni hs
    obtain ⟨m₀, hm₀, -⟩ := aggregateAtOnce_plain hplain hR
    refine fun L plan hL hperm => ⟨limit_truncate hplain hR hL hperm, fun hnone => ?_⟩
    rw [hm₀] at hnone
    cases hnone

/-- Rows of one column `a` and the values `x` and `y`, summed. -/
theorem limit_sound_sample :
    ∃ S, build (fun _ => true) ["a", "SUM(x)"] ["a"] = some S ∧
      LimitSound sampleHash S [numberRow [("a", 1), ("x", 5)], numberRow [("a", 2), ("x", 7)]] := by
  obtain ⟨S, hS⟩ := Option.isSome_iff_exists.mp
    (show (build (fun _ => true) ["a", "SUM(x)"] ["a"]).isSome = true by decide)
  have hplain : PlainSort S := by
    injection hS with hS
    subst hS
    exact ⟨⟨rfl, rfl, rfl, by decide⟩, rfl⟩
  have hgroups : ((build (fun _ => true) ["a", "SUM(x)"] ["a"]).map fun S =>
      decide (buildKey sampleHash S (buildUniks S (numberRow [("a", 1), ("x", 5)])) =
        buildKey sampleHash S (buildUniks S (numberRow [("a", 2), ("x", 7)])))) = some false := by
    decide +kernel
  have hgroups' : ((build (fun _ => true) ["a", "SUM(x)"] ["a"]).map fun S =>
      decide (buildUniks S (numberRow [("a", 1), ("x", 5)]) =
        buildUniks S (numberRow [("a", 2), ("x", 7)]))) = some false := by
    decide +kernel
  simp only [hS, Option.map_some, Option.some.injEq, decide_eq_false_iff_not] at hgroups hgroups'
  have hrange : SlotsInRange S := by
    injection hS with hS
    subst hS
    exact ⟨by decide, by decide⟩
  refine ⟨S, hS, (limit_sound_iff hplain ?_ ?_).mpr (Or.inr ⟨hrange, Or.inr ?_⟩)⟩
  · intro s hs s' hs' ukey hk hk'
    simp only [List.mem_cons, List.not_mem_nil, or_false] at hs hs'
    rcases hs with rfl | rfl <;> rcases hs' with rfl | rfl
    · rfl
    · exact absurd (hk.trans hk'.symm) hgroups
    · exact absurd (hk'.trans hk.symm) hgroups
    · rfl
  · intro s hs
    simp only [List.mem_cons, List.not_mem_nil, or_false] at hs
    rcases hs with rfl | rfl <;> exact numberRow_uint S _
  · intro s hs s' hs' hg _ _ k _
    simp only [List.mem_cons, List.not_mem_nil, or_false] at hs hs'
    rcases hs with rfl | rfl <;> rcases hs' with rfl | rfl
    · exact Iff.rfl
    · exact absurd hg hgroups'
    · exact absurd hg.symm hgroups'
    · exact Iff.rfl

/-- One group, a row with `x` alone and a row with `x` and `y`: the row that is
loaded first decides whether SUM(y) is reported. -/
theorem limit_loses_missing_column :
    ¬ ∀ (select_fields sort_fields : List String) (S : StatsSelect) (rows : List (Sample Nat)),
      build (fun _ => true) select_fields sort_fields = some S → PlainSort S →
        KeysDistinct sampleHash S rows → (∀ s ∈ rows, UIntRow S s.row) →
          LimitSound sampleHash S rows := by
  intro hclaim
  let r₁ := numberRow [("a", 1), ("x", 1)]
  let r₂ := numberRow [("a", 1), ("x", 2), ("y", 3)]
  obtain ⟨S, hS⟩ := Option.isSome_iff_exists.mp
    (show (build (fun _ => true) ["a", "SUM(x)", "SUM(y)"] ["a"]).isSome = true by decide)
  have hplain : PlainSort S := by
    injection hS with hS
    subst hS
    exact ⟨⟨rfl, rfl, rfl, by decide⟩, rfl⟩
  have hgroup : ((build (fun _ => true) ["a", "SUM(x)", "SUM(y)"] ["a"]).map fun S =>
      decide (buildUniks S r₁ = buildUniks S r₂)) = some true := by
    decide +kernel
  have honce : ((build (fun _ => true) ["a", "SUM(x)", "SUM(y)"] ["a"]).bind fun S =>
      (aggregateAtOnce sampleHash S [r₁, r₂]).map fun m =>
        (resultRows (applyLimit 5 m)).map fun b => b.2.size) = some [1] := by
    decide +kernel
  have hplan : ((build (fun _ => true) ["a", "SUM(x)", "SUM(y)"] ["a"]).bind fun S =>
      (runQuery sampleHash S 5 5 [[[r₂], [r₁]]]).map fun m =>
        (resultRows m).map fun b => b.2.size) = some [2] := by
    decide +kernel
  simp only [hS, Option.map_some, Option.bind_some, Option.some.injEq, decide_eq_true_iff]
    at hgroup honce hplan
  have hrows : ∀ s ∈ [r₁, r₂], buildUniks S s = buildUniks S r₁ ∧ UIntRow S s.row := by
    intro s hs
    simp only [List.mem_cons, List.not_mem_nil, or_false] at hs
    rcases hs with rfl | rfl
    · exact ⟨rfl, numberRow_uint S _⟩
    · exact ⟨hgroup.symm, numberRow_uint S _⟩
  have hsound := hclaim _ _ S [r₁, r₂] hS hplain
    (fun s hs s' hs' _ _ _ => (hrows s hs).1.trans (hrows s' hs').1.symm)
    (fun s hs => (hrows s hs).2) 5 [[[r₂], [r₁]]] (by decide) (List.Perm.swap ..)
  have hsound := hsound.1
  have := congrArg (Option.map fun l => l.map fun b : StatMap Nat × AggRow Nat => b.2.size) hsound
  rw [Option.map_map, Option.map_map] at this
  exact absurd ((hplan.symm.trans this).trans honce) (by decide)

-- ---------------------------------------------------------------------------
-- Chunks that are not cut
-- ---------------------------------------------------------------------------

/-- The number of groups in a chunk. -/
def groupCount (S : StatsSelect) (chunk : List (Sample δ)) : Nat :=
  (chunk.map (buildUniks S)).dedup.length

section

variable {hash_range : StatMap δ → Fin (2 ^ 64)} {S : StatsSelect} {rows : List (Sample δ)}

theorem Holds.size_le_groupCount
    {Total : List (StatMap δ × AggRow δ) → StatMap δ × AggRow δ → Prop}
    (hT : IsTotal Prod.fst Prod.fst mergeAggs Total) {chunk : List (Sample δ)} {m : MapBuf δ}
    (h : Holds hash_range S Total m (chunk.map (contribution hash_range S))) :
    m.size ≤ groupCount S chunk := by
  have hsub : ∀ u ∈ m.entries.map fun e => e.2.1, u ∈ (chunk.map (buildUniks S)).dedup := by
    intro u hu
    obtain ⟨e, he, rfl⟩ := List.mem_map.mp hu
    obtain ⟨c, hc, hce⟩ := h.exists_contribution hT he
    obtain ⟨s, hs, rfl⟩ := List.mem_map.mp hc
    exact List.mem_dedup.mpr (List.mem_map.mpr ⟨s, hs, hce⟩)
  have hlen := (List.subperm_of_subset h.keyed.nodup_groups hsub).length_le
  rwa [List.length_map] at hlen

/-- A chunk with no more groups than the limit is not cut. -/
theorem kept_of_small {Total : List (StatMap δ × AggRow δ) → StatMap δ × AggRow δ → Prop}
    (hR : Regular hash_range S Total rows) {chunk : List (Sample δ)}
    (hsub : ∀ s ∈ chunk, s ∈ rows) {limit : Nat}
    (hsmall : limit = 0 ∨ groupCount S chunk ≤ limit) :
    kept hash_range S limit chunk = chunk.map (contribution hash_range S) := by
  rcases hsmall with rfl | hsmall
  · exact kept_zero hR hsub
  · exact kept_of_size_le hR hsub fun m h => le_trans (h.size_le_groupCount hR.isTotal) hsmall

end

end TfAnalytics.QueryEngine.StatsSelect
