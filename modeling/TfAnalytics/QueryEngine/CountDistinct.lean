import TfAnalytics.QueryEngine.StatsDropped

/-!
# Query engine — COUNT_DISTINCT

Inside an instance the entries of a value of the counted column have been merged
into one, and the final merge counts one for each; a value that two instances
have seen is counted twice.

* `runQuery_count`: the count of a group is the number of its entries over all
  instances;
* `countsDistinct_iff`: it is the number of different values exactly when no
  two instances have seen the same value in the same group.
-/

namespace TfAnalytics.QueryEngine.StatsSelect

open TfAnalytics.Lib

-- ---------------------------------------------------------------------------
-- Cardinalities of unions
-- ---------------------------------------------------------------------------

section Unions

variable {α : Type} [DecidableEq α]

/-- The union of a list of finite sets. -/
def unionAll (l : List (Finset α)) : Finset α := l.foldr (· ∪ ·) ∅

theorem mem_unionAll {l : List (Finset α)} {a : α} : a ∈ unionAll l ↔ ∃ s ∈ l, a ∈ s := by
  induction l with
  | nil => simp [unionAll]
  | cons s l ih =>
    show a ∈ s ∪ unionAll l ↔ _
    rw [Finset.mem_union, ih]
    simp

theorem card_unionAll_le (l : List (Finset α)) : (unionAll l).card ≤ (l.map Finset.card).sum := by
  induction l with
  | nil => exact Nat.le_refl 0
  | cons s l ih =>
    show (s ∪ unionAll l).card ≤ _
    rw [List.map_cons, List.sum_cons]
    exact le_trans (Finset.card_union_le s (unionAll l)) (Nat.add_le_add_left ih _)

/-- The cardinalities add up exactly when the sets are disjoint. -/
theorem card_unionAll_eq_iff (l : List (Finset α)) :
    (unionAll l).card = (l.map Finset.card).sum ↔ l.Pairwise fun s t => ∀ a ∈ s, a ∉ t := by
  induction l with
  | nil => simp [unionAll]
  | cons s l ih =>
    rw [List.map_cons, List.sum_cons, List.pairwise_cons, ← ih]
    show (s ∪ unionAll l).card = _ ↔ _
    have hle := card_unionAll_le l
    have hunion := Finset.card_union_add_card_inter s (unionAll l)
    have hdisj : (s ∩ unionAll l).card = 0 ↔ ∀ t ∈ l, ∀ a ∈ s, a ∉ t := by
      rw [Finset.card_eq_zero, Finset.eq_empty_iff_forall_notMem]
      simp only [Finset.mem_inter, mem_unionAll, not_and, not_exists]
      exact ⟨fun h t ht a ha hat => h a ha t ht hat, fun h a ha t ht hat => h t ht a ha hat⟩
    rw [← hdisj]
    omega

end Unions

variable {δ : Type} [LinearOrder δ] [Numerics δ]

-- ---------------------------------------------------------------------------
-- Queries with a counted column
-- ---------------------------------------------------------------------------

/-- A SELECT with COUNT_DISTINCT(f). -/
structure DistinctSelect (S : StatsSelect) (f : String) : Prop extends DroppedSelect S f where
  nonempty : f ≠ ""

/-- Some row of the group has a value of the counted column. -/
def GroupCounted (S : StatsSelect) (f : String) (rows : List (Sample δ)) (g : StatMap δ) : Prop :=
  ∃ s ∈ rows, groupOf S f s = g ∧ HasCounted S f s

instance (S : StatsSelect) (f : String) (s : Sample δ) : Decidable (HasCounted S f s) :=
  inferInstanceAs (Decidable (_ = true))

instance (S : StatsSelect) (f : String) (rows : List (Sample δ)) (g : StatMap δ) :
    Decidable (GroupCounted S f rows g) :=
  inferInstanceAs (Decidable (∃ s ∈ rows, groupOf S f s = g ∧ HasCounted S f s))

/-- The aggregates of the sort list, the count apart. -/
def SortAggs (S : StatsSelect) (f : String) (_ : StatMap δ) (k : AggKey) : Prop :=
  (S.agg_sort_cols_.find? k).isSome = true ∧ k ≠ distinctKey f

/-- A group with a value is counted. -/
def countingOf (S : StatsSelect) (f : String) (rows : List (Sample δ)) (g : StatMap δ) : Counting :=
  if GroupCounted S f rows g then .each else .never

/-- What a COUNT_DISTINCT query assumes of its rows: they load, the values of an
aggregated column are of one kind in each group, no two group maps share a hash,
and what is sorted by reaches every group. In a group that is counted, a row
without the counted column contributes nothing. -/
structure DistinctRows (hash_range : StatMap δ → Fin (2 ^ 64)) (S : StatsSelect) (f : String)
    (kind : StatMap δ → String → ValueKind) (plan : List (List (List (Sample δ))))
    (rows : List (Sample δ)) : Prop where
  planned : plan.flatten.flatten.Perm rows
  load : RowsLoad hash_range S f rows
  kinds : ∀ s ∈ rows, RowKinds (kind (groupOf S f s)) S s.row
  counted : ∀ s ∈ rows, ¬ HasCounted S f s → GroupCounted S f rows (groupOf S f s) →
    ∀ k, ¬ Contributes S s.row k
  sorted : ∀ s ∈ rows, ∀ k, SortAggs S f (groupOf S f s) k →
    Reaches S f (plan.map List.flatten) (groupOf S f s) k
  countSorted : (S.agg_sort_cols_.find? (distinctKey f)).isSome = true →
    ∀ s ∈ rows, GroupCounted S f rows (groupOf S f s)

/-- No two instances have rows with the same value in the same group. -/
def NoValueShared (S : StatsSelect) (f : String) (plan : List (List (List (Sample δ)))) : Prop :=
  (plan.map List.flatten).Pairwise fun l l' =>
    ∀ s ∈ l, ∀ s' ∈ l', HasCounted S f s → buildUniks S s ≠ buildUniks S s'

/-- The count an entry shows is `n`; a group without any value shows none. -/
def ShowsCount (f : String) (n : Nat) (a : AggRow δ) : Prop :=
  (∀ v, a.find? (distinctKey f) = some v → ∃ m, v = .uint64 m ∧ m.val = n) ∧
    (0 < n → (a.find? (distinctKey f)).isSome = true)

/-- COUNT_DISTINCT(f) is right: the query ends with one entry for each group,
and its count is the number of values of `f` among the rows of the group. -/
def CountsDistinct (hash_range : StatMap δ → Fin (2 ^ 64)) (S : StatsSelect) (f : String)
    (limit : Nat) (plan : List (List (List (Sample δ)))) (rows : List (Sample δ)) : Prop :=
  ∃ out, runQuery hash_range S limit 0 plan = some out ∧
    (out.entries.map fun e => e.2.1).Nodup ∧
    (∀ g, (∃ e ∈ out.entries, e.2.1 = g) ↔ ∃ s ∈ rows, groupOf S f s = g) ∧
    ∀ e ∈ out.entries, ShowsCount f (distinctValues S f e.2.1 rows).card e.2.2

section

variable {hash_range : StatMap δ → Fin (2 ^ 64)} {S : StatsSelect} {f : String}
  {kind : StatMap δ → String → ValueKind} {rows : List (Sample δ)}
  {plan : List (List (List (Sample δ)))}

omit [LinearOrder δ] [Numerics δ] in
theorem showsCount_iff {n c : Nat} {a : AggRow δ} (hn : n < 2 ^ 64) (hc : c ≤ n)
    (ha : a.find? (distinctKey f) = countValue n) : ShowsCount f c a ↔ n = c := by
  unfold ShowsCount
  rw [ha, countValue]
  by_cases hzero : n = 0
  · rw [if_pos hzero]
    simp only [reduceCtorEq, false_implies, implies_true, true_and, Option.isSome_none,
      Bool.false_eq_true]
    omega
  · rw [if_neg hzero]
    have hval : (Fin.ofNat (2 ^ 64) n).val = n := Nat.mod_eq_of_lt hn
    constructor
    · rintro ⟨hval', -⟩
      obtain ⟨m, hm, rfl⟩ := hval' _ rfl
      rw [← StatVal.uint64.inj hm, hval]
    · rintro rfl
      exact ⟨fun v hv => ⟨_, (Option.some.inj hv).symm, hval⟩, fun _ => rfl⟩

omit [LinearOrder δ] [Numerics δ] in
theorem parts_perm (hplanned : plan.flatten.flatten.Perm rows) :
    (plan.map List.flatten).flatten.Perm rows := by
  rw [← List.flatten_flatten]
  exact hplanned

omit [Numerics δ] in
/-- The groups with a value are counted, the others are not. -/
theorem DistinctRows.partsMerge (h : DistinctRows hash_range S f kind plan rows) :
    PartsMerge hash_range S f kind (SortAggs S f) (countingOf S f rows) (plan.map List.flatten)
      rows where
  planned := parts_perm h.planned
  load := h.load
  kinds := h.kinds
  reached := h.sorted
  counted s hs := by
    have hmem : ∀ l ∈ plan.map List.flatten, ∀ s ∈ l, s ∈ rows := fun l hl s hs =>
      (parts_perm h.planned).mem_iff.mp (List.mem_flatten_of_mem hl hs)
    unfold countingOf
    split
    · next hcounted =>
      intro l hl s' hs' hg hcol
      refine h.counted s' (hmem l hl s' hs') hcol ?_
      rw [hg]
      exact hcounted
    · next hnot =>
      intro l hl s' hs' hg hcol
      exact hnot ⟨s', hmem l hl s' hs', hg, hcol⟩

/-- The count of each group is the number of values that its instances have
seen, each instance for itself. -/
theorem runQuery_count (hslots : (S.sort_cols_.entries.map Prod.snd).Nodup)
    (hD : DistinctSelect S f) (h : DistinctRows hash_range S f kind plan rows) {limit : Nat}
    (hsmall : limit = 0 ∨ ∀ chunks ∈ plan, ∀ chunk ∈ chunks, groupCount S chunk ≤ limit) :
    ∃ out, runQuery hash_range S limit 0 plan = some out ∧
      (out.entries.map fun e => e.2.1).Nodup ∧
      (∀ g, (∃ e ∈ out.entries, e.2.1 = g) ↔ ∃ s ∈ rows, groupOf S f s = g) ∧
      ∀ e ∈ out.entries, e.2.2.find? (distinctKey f) = countValue
        (((plan.map List.flatten).map (distinctValues S f e.2.1)).map Finset.card).sum := by
  have hmerge := h.partsMerge
  obtain ⟨ms, m, full, hrun, hto⟩ := runQuery_merges hslots hD.toDroppedSelect hmerge 0 hsmall (by
    intro s hs x hx
    have hfind : (S.agg_sort_cols_.find? x.1).isSome = true := by
      rw [OrderedMap.mem_entries.mp hx]
      rfl
    by_cases hxd : x.1 = distinctKey f
    · have hcounted := h.countSorted (hxd ▸ hfind) s hs
      exact Or.inr ⟨hxd, if_pos hcounted, hcounted⟩
    · exact Or.inl ⟨hfind, hxd⟩)
  have hback : ∀ e ∈ full.entries, ∃ e₀ ∈ m.entries, e₀.2 = e.2 := fun e he =>
    List.mem_map.mp (hto.entries.mem_iff.mp (List.mem_map_of_mem he))
  refine ⟨full, by simpa [applyLimit] using hrun, ?_, ?_, ?_⟩
  · have hp := hto.entries.map Prod.fst
    rw [List.map_map, List.map_map] at hp
    exact hp.nodup_iff.mpr hto.merged.keyed.nodup_groups
  · intro g
    rw [← hmerge.groups hto.instances hto.merged g]
    constructor
    · rintro ⟨e, he, rfl⟩
      obtain ⟨e₀, he₀, heq⟩ := hback e he
      exact ⟨e₀, he₀, congrArg Prod.fst heq⟩
    · rintro ⟨e₀, he₀, rfl⟩
      obtain ⟨e, he, heq⟩ := List.mem_map.mp (hto.entries.mem_iff.mpr (List.mem_map_of_mem he₀))
      exact ⟨e, he, congrArg Prod.fst heq⟩
  · intro e he
    obtain ⟨e₀, he₀, heq⟩ := hback e he
    rw [← heq]
    by_cases hcounted : GroupCounted S f rows e₀.2.1
    · exact hmerge.find?_distinctKey hto.instances hto.merged he₀ (if_pos hcounted)
    · -- no row has a value, and nobody counts
      have hnone := (hto.merged.total e₀ he₀).count
      rw [countingOf, if_neg hcounted] at hnone
      have hzero : (((plan.map List.flatten).map (distinctValues S f e₀.2.1)).map
          Finset.card).sum = 0 := by
        refine List.sum_eq_zero fun n hn => ?_
        obtain ⟨vs, hvs, rfl⟩ := List.mem_map.mp hn
        obtain ⟨l, hl, rfl⟩ := List.mem_map.mp hvs
        rw [Finset.card_eq_zero, Finset.eq_empty_iff_forall_notMem]
        intro v hv
        obtain ⟨s, hs, hg, hsv⟩ := mem_distinctValues.mp hv
        exact hcounted ⟨s, hmerge.mem_rows hl hs, hg, by rw [HasCounted, hsv]; rfl⟩
      rw [hzero]
      exact hnone

omit [Numerics δ] in
theorem unionAll_distinctValues (g : StatMap δ) {parts : List (List (Sample δ))}
    (hp : parts.flatten.Perm rows) :
    unionAll (parts.map (distinctValues S f g)) = distinctValues S f g rows := by
  refine Finset.ext fun v => ?_
  rw [mem_unionAll, mem_distinctValues]
  constructor
  · rintro ⟨vs, hvs, hv⟩
    obtain ⟨l, hl, rfl⟩ := List.mem_map.mp hvs
    obtain ⟨s, hs, hsv⟩ := mem_distinctValues.mp hv
    exact ⟨s, hp.mem_iff.mp (List.mem_flatten_of_mem hl hs), hsv⟩
  · rintro ⟨s, hs, hsv⟩
    obtain ⟨l, hl, hs⟩ := List.mem_flatten.mp (hp.mem_iff.mpr hs)
    exact ⟨_, List.mem_map_of_mem hl, mem_distinctValues.mpr ⟨s, hs, hsv⟩⟩

omit [Numerics δ] in
theorem card_distinctValues_le (g : StatMap δ) (l : List (Sample δ)) :
    (distinctValues S f g l).card ≤ l.length :=
  le_trans (List.toFinset_card_le _) (le_trans (List.length_filterMap_le ..)
    (List.length_filter_le ..))

omit [Numerics δ] in
theorem sum_card_le (g : StatMap δ) (parts : List (List (Sample δ))) :
    ((parts.map (distinctValues S f g)).map Finset.card).sum ≤ parts.flatten.length := by
  induction parts with
  | nil => exact Nat.le_refl 0
  | cons l parts ih =>
    rw [List.map_cons, List.map_cons, List.sum_cons, List.flatten_cons, List.length_append]
    exact Nat.add_le_add (card_distinctValues_le g l) ih

omit [Numerics δ] in
/-- The instances' values of a group are disjoint when no value is shared. -/
theorem disjoint_of_noValueShared (h : NoValueShared S f plan) (g : StatMap δ) :
    ((plan.map List.flatten).map (distinctValues S f g)).Pairwise
      fun vs vs' => ∀ v ∈ vs, v ∉ vs' := by
  refine List.pairwise_map.mpr (List.Pairwise.imp ?_ h)
  intro l l' hne v hv hv'
  obtain ⟨s, hs, hg, hsv⟩ := mem_distinctValues.mp hv
  obtain ⟨s', hs', hg', hsv'⟩ := mem_distinctValues.mp hv'
  exact hne s hs s' hs' (by rw [HasCounted, hsv]; rfl)
    (eq_of_erase_eq (hg.trans hg'.symm) (hsv.trans hsv'.symm))

omit [Numerics δ] in
theorem noValueShared_of_disjoint
    (h : ∀ l ∈ plan.map List.flatten, ∀ s ∈ l,
      ((plan.map List.flatten).map (distinctValues S f (groupOf S f s))).Pairwise
        fun vs vs' => ∀ v ∈ vs, v ∉ vs') : NoValueShared S f plan := by
  refine List.pairwise_iff_forall_sublist.mpr fun {l l'} hsub s hs s' hs' hcol heq => ?_
  have hl : l ∈ plan.map List.flatten := hsub.subset (List.mem_cons_self ..)
  obtain ⟨v, hv⟩ := Option.isSome_iff_exists.mp hcol
  have hdisj := List.pairwise_iff_forall_sublist.mp (List.pairwise_map.mp (h l hl s hs)) hsub
  exact hdisj v (mem_distinctValues.mpr ⟨s, hs, rfl, hv⟩)
    (mem_distinctValues.mpr ⟨s', hs', by rw [groupOf, groupOf, heq], by rw [← heq]; exact hv⟩)

end

/-- COUNT_DISTINCT(f) counts the different values of `f` in each group exactly
when no two instances have seen the same value in the same group. -/
theorem countsDistinct_iff {known : String → Bool} {select_fields sort_fields : List String}
    {S : StatsSelect} (hbuild : build known select_fields sort_fields = some S) {f : String}
    (hD : DistinctSelect S f) {hash_range : StatMap δ → Fin (2 ^ 64)}
    {kind : StatMap δ → String → ValueKind} {rows : List (Sample δ)}
    {plan : List (List (List (Sample δ)))} (h : DistinctRows hash_range S f kind plan rows)
    (hlen : rows.length < 2 ^ 64) {limit : Nat}
    (hsmall : limit = 0 ∨ ∀ chunks ∈ plan, ∀ chunk ∈ chunks, groupCount S chunk ≤ limit) :
    CountsDistinct hash_range S f limit plan rows ↔ NoValueShared S f plan := by
  obtain ⟨out, hout, hnd, hgroups, hcount⟩ := runQuery_count (build_slots_nodup hbuild) hD h hsmall
  have hparts := parts_perm h.planned
  -- the count of a group is right when the instances' values of it are disjoint
  have hval : ∀ e ∈ out.entries, ShowsCount f (distinctValues S f e.2.1 rows).card e.2.2 ↔
      ((plan.map List.flatten).map (distinctValues S f e.2.1)).Pairwise
        fun vs vs' => ∀ v ∈ vs, v ∉ vs' := by
    intro e he
    have hsum := sum_card_le (S := S) (f := f) e.2.1 (plan.map List.flatten)
    rw [hparts.length_eq] at hsum
    have hle := card_unionAll_le ((plan.map List.flatten).map (distinctValues S f e.2.1))
    rw [unionAll_distinctValues e.2.1 hparts] at hle
    rw [← card_unionAll_eq_iff, unionAll_distinctValues e.2.1 hparts,
      showsCount_iff (lt_of_le_of_lt hsum hlen) hle (hcount e he)]
    exact eq_comm
  constructor
  · rintro ⟨out', hout', -, -, hright⟩
    rw [hout, Option.some.injEq] at hout'
    subst hout'
    refine noValueShared_of_disjoint fun l hl s hs => ?_
    obtain ⟨e, he, hg⟩ := (hgroups (groupOf S f s)).mpr
      ⟨s, hparts.mem_iff.mp (List.mem_flatten_of_mem hl hs), rfl⟩
    rw [← hg]
    exact (hval e he).mp (hright e he)
  · intro hshared
    exact ⟨out, hout, hnd, hgroups,
      fun e he => (hval e he).mpr (disjoint_of_noValueShared hshared e.2.1)⟩

section Samples

/-- A SELECT whose only aggregate is COUNT_DISTINCT(f). -/
theorem countOnly_select {S : StatsSelect}
    (hS : build (fun _ => true) ["a", "COUNT_DISTINCT(f)"] [] = some S) :
    DistinctSelect S "f" ∧ (∀ row : List (StatEntry Nat), ∀ k, ¬ Contributes S row k) ∧
      (∀ op n, opCols S op n = false) ∧ S.agg_sort_cols_ = .empty := by
  injection hS with hS
  subst hS
  refine ⟨⟨⟨rfl, rfl, by decide, by decide, Or.inl (by decide), fun _ => rfl, fun _ => by decide,
    by decide⟩, by decide⟩, ?_, ?_, rfl⟩
  · rintro row k (⟨hop, -⟩ | ⟨-, hcls⟩ | ⟨-, hcnt, -⟩)
    · cases h : k.oper <;> rw [h] at hop <;> cases hop
    · cases hcls
    · exact hcnt rfl
  · intro op n
    cases op <;> rfl

/-- What is left to check of the rows of such a query. -/
theorem countOnly_rows {S : StatsSelect}
    (hS : build (fun _ => true) ["a", "COUNT_DISTINCT(f)"] [] = some S)
    {rows : List (Sample Nat)} {plan : List (List (List (Sample Nat)))}
    (hplanned : plan.flatten.flatten.Perm rows)
    (hload : ∀ s ∈ rows, (buildKey sampleHash S (buildUniks S s)).isSome = true)
    (hhash : ∀ u ∈ rows.flatMap fun s => [buildUniks S s, (buildUniks S s).erase "f"],
      ∀ u' ∈ rows.flatMap fun s => [buildUniks S s, (buildUniks S s).erase "f"],
        sampleHash u = sampleHash u' → u = u') :
    DistinctRows sampleHash S "f" (fun _ _ => .uint64) plan rows := by
  obtain ⟨-, hnone, hcols, hsort⟩ := countOnly_select hS
  have hocc : ∀ {u}, Occurs S "f" rows u →
      u ∈ rows.flatMap fun s => [buildUniks S s, (buildUniks S s).erase "f"] := by
    rintro u ⟨s, hs, hu⟩
    exact List.mem_flatMap.mpr ⟨s, hs, by simpa [groupOf] using hu⟩
  refine ⟨hplanned, ⟨hload, fun u u' hu hu' => hhash u (hocc hu) u' (hocc hu')⟩,
    fun s _ it _ op hop => ?_, fun s _ _ _ => hnone s.row, fun s _ k hk => ?_, fun hk => ?_⟩
  · rw [hcols] at hop
    cases hop
  · have hfind := hk.1
    rw [hsort] at hfind
    cases hfind
  · rw [hsort] at hk
    cases hk

/-- A row without `f`, the value 7 twice in one instance, the value 8 in another. -/
theorem countsDistinct_sample :
    ∃ S, build (fun _ => true) ["a", "COUNT_DISTINCT(f)"] [] = some S ∧
      CountsDistinct sampleHash S "f" 0
        [[[numberRow [("a", 1)], numberRow [("a", 1), ("f", 7)]], [numberRow [("a", 1), ("f", 7)]]],
          [[numberRow [("a", 1), ("f", 8)]]]]
        [numberRow [("a", 1)], numberRow [("a", 1), ("f", 7)], numberRow [("a", 1), ("f", 7)],
          numberRow [("a", 1), ("f", 8)]] := by
  obtain ⟨S, hS⟩ := Option.isSome_iff_exists.mp
    (show (build (fun _ => true) ["a", "COUNT_DISTINCT(f)"] []).isSome = true by decide)
  have hchecks : ((build (fun _ => true) ["a", "COUNT_DISTINCT(f)"] []).map fun S =>
      let rows := [numberRow [("a", 1)], numberRow [("a", 1), ("f", 7)],
        numberRow [("a", 1), ("f", 7)], numberRow [("a", 1), ("f", 8)]]
      decide ((∀ s ∈ rows, (buildKey sampleHash S (buildUniks S s)).isSome = true) ∧
        (∀ u ∈ rows.flatMap fun s => [buildUniks S s, (buildUniks S s).erase "f"],
          ∀ u' ∈ rows.flatMap fun s => [buildUniks S s, (buildUniks S s).erase "f"],
            sampleHash u = sampleHash u' → u = u') ∧
        buildUniks S (numberRow [("a", 1)]) ≠ buildUniks S (numberRow [("a", 1), ("f", 8)]) ∧
        buildUniks S (numberRow [("a", 1), ("f", 7)]) ≠
          buildUniks S (numberRow [("a", 1), ("f", 8)]))) = some true := by
    decide +kernel
  simp only [hS, Option.map_some, Option.some.injEq, decide_eq_true_iff] at hchecks
  obtain ⟨hload, hhash, hne, hne'⟩ := hchecks
  have hrows : DistinctRows sampleHash S "f" (fun _ _ => .uint64)
      [[[numberRow [("a", 1)], numberRow [("a", 1), ("f", 7)]], [numberRow [("a", 1), ("f", 7)]]],
        [[numberRow [("a", 1), ("f", 8)]]]] _ :=
    countOnly_rows hS (List.Perm.refl _) hload hhash
  refine ⟨S, hS, (countsDistinct_iff hS (countOnly_select hS).1 hrows (by decide)
    (Or.inl rfl)).mpr ?_⟩
  simp [NoValueShared, hne, hne']

/-- One row in each of two instances, the same value: counted twice. -/
theorem shared_value_counted_twice :
    ¬ ∀ (select_fields sort_fields : List String) (S : StatsSelect) (f : String)
      (kind : StatMap Nat → String → ValueKind) (rows : List (Sample Nat))
      (plan : List (List (List (Sample Nat)))),
      build (fun _ => true) select_fields sort_fields = some S → DistinctSelect S f →
        DistinctRows sampleHash S f kind plan rows → CountsDistinct sampleHash S f 0 plan rows := by
  intro hclaim
  let r := numberRow [("a", 1), ("f", 7)]
  obtain ⟨S, hS⟩ := Option.isSome_iff_exists.mp
    (show (build (fun _ => true) ["a", "COUNT_DISTINCT(f)"] []).isSome = true by decide)
  have hchecks : ((build (fun _ => true) ["a", "COUNT_DISTINCT(f)"] []).map fun S =>
      decide ((∀ s ∈ [r, r], (buildKey sampleHash S (buildUniks S s)).isSome = true) ∧
        (∀ u ∈ [r, r].flatMap fun s => [buildUniks S s, (buildUniks S s).erase "f"],
          ∀ u' ∈ [r, r].flatMap fun s => [buildUniks S s, (buildUniks S s).erase "f"],
            sampleHash u = sampleHash u' → u = u'))) = some true := by
    decide +kernel
  have hrun : ((build (fun _ => true) ["a", "COUNT_DISTINCT(f)"] []).bind fun S =>
      (runQuery sampleHash S 0 0 [[[r]], [[r]]]).map fun m => m.entries.map fun e =>
        (decide (e.2.2.find? (distinctKey "f") = some (.uint64 2)),
          (distinctValues S "f" e.2.1 [r, r]).card)) = some [(true, 1)] := by
    decide +kernel
  simp only [hS, Option.map_some, Option.some.injEq, decide_eq_true_iff] at hchecks
  obtain ⟨out, hout, -, -, hright⟩ := hclaim _ _ S "f" _ [r, r] [[[r]], [[r]]] hS
    (countOnly_select hS).1 (countOnly_rows hS (List.Perm.refl _) hchecks.1 hchecks.2)
  simp only [hS, Option.bind_some, hout, Option.map_some, Option.some.injEq] at hrun
  have hmem : (true, 1) ∈ out.entries.map fun e =>
      (decide (e.2.2.find? (distinctKey "f") = some (.uint64 2)),
        (distinctValues S "f" e.2.1 [r, r]).card) := by
    rw [hrun]
    exact List.mem_singleton_self _
  obtain ⟨e, he, heq⟩ := List.mem_map.mp hmem
  rw [Prod.mk.injEq, decide_eq_true_iff] at heq
  obtain ⟨m, hm, hcard⟩ := (hright e he).1 _ heq.1
  rw [← StatVal.uint64.inj hm, heq.2] at hcard
  exact absurd hcard (by decide)

end Samples

end TfAnalytics.QueryEngine.StatsSelect
