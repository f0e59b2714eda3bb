import TfAnalytics.QueryEngine.StatsTopN
import TfAnalytics.QueryEngine.ResultLimit
import TfAnalytics.QueryEngine.ResultOrder

/-!
# Query engine — the order of stats results

The result of a stats, session or flow query is a multimap, which lists its
entries by ascending key, and every cut keeps the first ones. The order of the
SORT is parsed into `PostProcessingQuery::sorting_type`, which is read where
vectors of rows are sorted and merged, and nowhere else: `reportedMap` has it for
an argument and does not use it. With `T` in the SELECT nothing is merged, and the
cut chunks are put together as they are.

* `sortKey_mono` — the entries of a multimap have non-decreasing sort keys.
* `reported_heads` — what is reported is the beginning of the whole result.
* `reported_timed` — with `T`, it is what the cuts of the chunks leave.
* `descending_iff` — a DESCENDING query is answered as asked exactly when all
  groups have the same sort key, and with `T` the chunks keep to the limit together.
-/

namespace TfAnalytics.QueryEngine.StatsSelect

open TfAnalytics.Lib

variable {δ : Type} [LinearOrder δ]

-- ---------------------------------------------------------------------------
-- Sort keys
-- ---------------------------------------------------------------------------

/-- No sort column stands in the slot of the hash. -/
def HashSlotFree (S : StatsSelect) : Prop :=
  (∀ e ∈ S.sort_cols_.entries, e.2 ≠ S.hash_slot) ∧
    ∀ e ∈ S.agg_sort_cols_.entries, e.2 ≠ S.hash_slot

instance (S : StatsSelect) : Decidable (HashSlotFree S) :=
  inferInstanceAs (Decidable ((∀ e ∈ S.sort_cols_.entries, e.2 ≠ S.hash_slot) ∧
    ∀ e ∈ S.agg_sort_cols_.entries, e.2 ≠ S.hash_slot))

/-- The values of the sort columns: the key without the hash. -/
def sortKey (S : StatsSelect) (ukey : SortKey δ) : SortKey δ :=
  if HashSlotFree S then ukey.take S.hash_slot else ukey

theorem lt_of_take_lt : ∀ (n : Nat) (l l' : List (StatVal δ)), l.take n < l'.take n → l < l'
  | 0, _, _, h => absurd h (lt_irrefl _)
  | n + 1, [], [], h => absurd h (lt_irrefl _)
  | n + 1, [], b :: l', _ => List.nil_lt_cons b l'
  | n + 1, a :: l, [], h => absurd h (List.not_lt_nil _)
  | n + 1, a :: l, b :: l', h => by
    rw [List.take_succ_cons, List.take_succ_cons, List.cons_lt_cons_iff] at h
    rw [List.cons_lt_cons_iff]
    rcases h with hlt | ⟨rfl, hlt⟩
    · exact Or.inl hlt
    · exact Or.inr ⟨rfl, lt_of_take_lt n l l' hlt⟩

theorem sortKey_mono (S : StatsSelect) {ukey ukey' : SortKey δ} (h : ukey ≤ ukey') :
    sortKey S ukey ≤ sortKey S ukey' := by
  unfold sortKey
  split
  · exact le_of_not_gt fun hlt => not_lt_of_ge h (lt_of_take_lt _ _ _ hlt)
  · exact h

/-- The values of an entry's sort columns. Without a merge the aggregates are not in
the slots of the key. -/
def sortValues (S : StatsSelect) (e : SortKey δ × (StatMap δ × AggRow δ)) : SortKey δ :=
  sortKey S (if S.IsMergeNeeded then e.1
    else (fillSlots e.2.2.find? S.agg_sort_cols_.entries e.1).getD e.1)

/-- The key has all values the query is sorted by. -/
def KeyHasAll (S : StatsSelect) : Prop :=
  S.IsMergeNeeded = true ∨ S.agg_sort_cols_.isEmpty = true

omit [LinearOrder δ] in
theorem sortValues_eq {S : StatsSelect} (h : KeyHasAll S)
    (e : SortKey δ × (StatMap δ × AggRow δ)) : sortValues S e = sortKey S e.1 := by
  unfold sortValues
  by_cases hmerge : S.IsMergeNeeded = true
  · rw [if_pos hmerge]
  · have hnone : S.agg_sort_cols_.entries = [] := List.isEmpty_iff.mp (h.resolve_left hmerge)
    rw [if_neg hmerge, hnone]
    rfl

/-- A row as far as its place in the result goes: what it is sorted by, and its group. -/
abbrev Head (δ : Type) : Type := SortKey δ × StatMap δ

/-- The heads of a result, in the order it is reported in. -/
def heads (S : StatsSelect) (m : MapBuf δ) : List (Head δ) :=
  m.entries.map fun e => (sortValues S e, e.2.1)

theorem heads_sorted {S : StatsSelect} (h : KeyHasAll S) (m : MapBuf δ) :
    (heads S m).Pairwise fun e e' => e.1 ≤ e'.1 := by
  refine List.pairwise_map.mpr (m.sorted.imp fun {e e'} hab => ?_)
  show sortValues S e ≤ sortValues S e'
  rw [sortValues_eq h, sortValues_eq h]
  exact sortKey_mono S hab

/-- All rows are sorted by the same values. -/
def SameValues (rows : List (Head δ)) : Prop := ∀ e ∈ rows, ∀ e' ∈ rows, e.1 = e'.1

instance (rows : List (Head δ)) : Decidable (SameValues rows) :=
  inferInstanceAs (Decidable (∀ e ∈ rows, ∀ e' ∈ rows, e.1 = e'.1))

/-- What DESCENDING asks of the rows reported with a limit: they come by
non-increasing sort key, and no row left out has a greater one than they. -/
structure ReportsDescending (limit : Nat) (full out : List (Head δ)) : Prop where
  nonincreasing : out.Pairwise fun e e' => e'.1 ≤ e.1
  length_eq : out.length = if limit ≠ 0 then min limit full.length else full.length
  largest : ∃ left, full.Perm (out ++ left) ∧ ∀ e ∈ left, ∀ e' ∈ out, e.1 ≤ e'.1

theorem ReportsDescending.le_of_not_mem {limit : Nat} {full out : List (Head δ)}
    (h : ReportsDescending limit full out) {e : Head δ} (he : e ∈ full) (hout : e ∉ out) :
    ∀ e' ∈ out, e.1 ≤ e'.1 := by
  obtain ⟨left, hperm, hle⟩ := h.largest
  exact hle e ((List.mem_append.mp (hperm.mem_iff.mp he)).resolve_left hout)

theorem reportsDescending_of_sameValues {limit : Nat} {full out : List (Head δ)}
    (hsame : SameValues full)
    (hlen : out.length = if limit ≠ 0 then min limit full.length else full.length)
    (hsub : ∃ left, full.Perm (out ++ left)) : ReportsDescending limit full out := by
  obtain ⟨left, hperm⟩ := hsub
  have hout : ∀ e ∈ out, e ∈ full := fun e he =>
    hperm.mem_iff.mpr (List.mem_append_left _ he)
  refine ⟨List.pairwise_of_forall_mem_list ?_, hlen, left, hperm, ?_⟩
  · intro e he e' he'
    exact le_of_eq (hsame e' (hout e' he') e (hout e he))
  · intro e he e' he'
    have hfull := hperm.mem_iff.mpr (List.mem_append_right _ he)
    exact le_of_eq (hsame e hfull e' (hout e' he'))

theorem sameValues_iff_of_sorted {rows : List (Head δ)}
    (hsorted : rows.Pairwise fun e e' => e.1 ≤ e'.1) :
    (rows.Pairwise fun e e' => e'.1 ≤ e.1) ↔ SameValues rows := by
  constructor
  · intro h
    cases rows with
    | nil => intro e he; cases he
    | cons e₀ rest =>
      -- every key is the first one's
      have heq : ∀ e ∈ e₀ :: rest, e.1 = e₀.1 := by
        intro e he
        rcases List.mem_cons.mp he with rfl | he
        · rfl
        · exact le_antisymm ((List.pairwise_cons.mp h).1 e he)
            ((List.pairwise_cons.mp hsorted).1 e he)
      intro e he e' he'
      rw [heq e he, heq e' he']
  · intro h
    exact List.pairwise_of_forall_mem_list fun e he e' he' => le_of_eq (h e' he' e he)

/-- Ascending chunks, each cut and put together, answer a DESCENDING query only if
all rows are sorted by the same values. -/
theorem ReportsDescending.sameValues {limit chunkLimit : Nat} {chunks : List (List (Head δ))}
    (hchunks : ∀ c ∈ chunks, c.Pairwise fun e e' => e.1 ≤ e'.1) {full out : List (Head δ)}
    (hout : out.Perm (chunks.map (cut chunkLimit)).flatten) (hfull : full.Perm chunks.flatten)
    (hsorted : out.Pairwise fun e e' => e.1 ≤ e'.1) (h : ReportsDescending limit full out) :
    SameValues full := by
  have hflat := (sameValues_iff_of_sorted hsorted).mp h.nonincreasing
  -- a row left out of its chunk has the values of the chunk's first, which is reported
  have hkey : ∀ e ∈ full, ∃ e' ∈ out, e.1 = e'.1 := by
    intro e he
    by_cases hin : e ∈ out
    · exact ⟨e, hin, rfl⟩
    · obtain ⟨c, hc, hec⟩ := List.mem_flatten.mp (hfull.mem_iff.mp he)
      cases c with
      | nil => cases hec
      | cons e₀ rest =>
        obtain ⟨rest', hcut⟩ := exists_cut_cons chunkLimit e₀ rest
        have hout₀ : e₀ ∈ out := by
          refine hout.mem_iff.mpr (List.mem_flatten_of_mem (List.mem_map_of_mem hc) ?_)
          rw [hcut]
          exact List.mem_cons_self
        refine ⟨e₀, hout₀, le_antisymm (h.le_of_not_mem he hin e₀ hout₀) ?_⟩
        rcases List.mem_cons.mp hec with rfl | hec
        · exact le_refl _
        · exact (List.pairwise_cons.mp (hchunks _ hc)).1 e hec
  intro e he e' he'
  obtain ⟨r, hr, heq⟩ := hkey e he
  obtain ⟨r', hr', heq'⟩ := hkey e' he'
  rw [heq, heq']
  exact hflat r hr r' hr'

/-- The beginning of an ascending list answers a DESCENDING query only if there
is nothing to order. -/
theorem reportsDescending_cut_iff (limit : Nat) {full : List (Head δ)}
    (hsorted : full.Pairwise fun e e' => e.1 ≤ e'.1) :
    ReportsDescending limit full (cut limit full) ↔ SameValues full := by
  constructor
  · intro h
    have hchunks : ∀ c ∈ [full], c.Pairwise fun e e' => e.1 ≤ e'.1 := by
      intro c hc
      rw [List.mem_singleton.mp hc]
      exact hsorted
    have hout : (cut limit full).Perm ([full].map (cut limit)).flatten := by simp
    have hfull : full.Perm [full].flatten := by simp
    exact h.sameValues hchunks hout hfull (Pairwise.cut hsorted limit)
  · intro h
    exact reportsDescending_of_sameValues h (length_cut limit full)
      (cut_sublist limit full).exists_perm_append

theorem sum_min_le (L : Nat) (l : List Nat) :
    min L l.sum ≤ (l.map (min L)).sum ∧ (l.map (min L)).sum ≤ l.sum := by
  induction l with
  | nil => simp
  | cons n l ih =>
    rw [List.map_cons, List.sum_cons, List.sum_cons]
    omega

/-- If all rows are sorted by the same values, cut chunks put together answer a
DESCENDING query exactly when what the cuts leave keeps to the limit. -/
theorem reportsDescending_collect_iff {limit chunkLimit : Nat}
    (hlimit : chunkLimit = limit ∨ chunkLimit = 0) {chunks : List (List (Head δ))}
    {full out : List (Head δ)} (hout : out.Perm (chunks.map (cut chunkLimit)).flatten)
    (hfull : full.Perm chunks.flatten) (hsame : SameValues full) :
    ReportsDescending limit full out ↔
      limit = 0 ∨ (chunks.map fun c => (cut chunkLimit c).length).sum ≤ limit := by
  have hlen : out.length = (chunks.map fun c => (cut chunkLimit c).length).sum := by
    rw [hout.length_eq, List.length_flatten, List.map_map]
    rfl
  have hlen' : full.length = (chunks.map List.length).sum := by
    rw [hfull.length_eq, List.length_flatten]
  constructor
  · intro h
    by_cases hzero : limit = 0
    · exact Or.inl hzero
    · have hle := h.length_eq
      rw [if_pos hzero, hlen] at hle
      exact Or.inr (by omega)
  · intro hsum
    refine reportsDescending_of_sameValues hsame ?_ ?_
    · rw [hlen, hlen']
      by_cases hzero : limit = 0
      · have hnone : chunkLimit = 0 := hlimit.elim (fun h => h.trans hzero) id
        rw [if_neg (not_not.mpr hzero), hnone]
        rfl
      · rw [if_pos hzero]
        have hsum := hsum.resolve_left hzero
        rcases hlimit with rfl | rfl
        · have hcuts : (chunks.map fun c => (cut chunkLimit c).length) =
              (chunks.map List.length).map (min chunkLimit) := by
            rw [List.map_map]
            refine List.map_congr_left fun c _ => ?_
            rw [length_cut, if_pos hzero]
            rfl
          have hmin := sum_min_le chunkLimit (chunks.map List.length)
          rw [hcuts] at hsum ⊢
          omega
        · have hall : (chunks.map fun c => (cut 0 c).length) = chunks.map List.length := rfl
          rw [hall] at hsum ⊢
          omega
    · obtain ⟨left, hleft⟩ := exists_perm_flatten_cut chunkLimit chunks
      exact ⟨left, hfull.trans (hleft.trans (hout.symm.append_right left))⟩

-- ---------------------------------------------------------------------------
-- Whole queries
-- ---------------------------------------------------------------------------

section Queries

variable [Numerics δ]

/-- An instance of a query that needs no merge: each chunk is loaded, cut, and put
to what is there. -/
def collectInstance (hash_range : StatMap δ → Fin (2 ^ 64)) (S : StatsSelect) (chunkLimit : Nat)
    (chunks : List (List (Sample δ))) : Option (MapBuf δ) :=
  chunks.foldlM
    (fun out rows => (loadChunk hash_range S rows).map fun chunk =>
      insertAll (applyLimit chunkLimit chunk) out)
    .empty

/-- All instances of a query that needs no merge. -/
def collectQuery (hash_range : StatMap δ → Fin (2 ^ 64)) (S : StatsSelect) (chunkLimit : Nat)
    (plan : List (List (List (Sample δ)))) : Option (MapBuf δ) :=
  (plan.mapM (collectInstance hash_range S chunkLimit)).map fun results =>
    results.foldl (fun res sub => insertAll sub res) .empty

/-- The result of a query with SORT and LIMIT: chunks are loaded and cut by
`process_query`. If the query needs a merge they are merged and cut again by
`QueryFinalMerge`, else put together. -/
def reportedMap (hash_range : StatMap δ → Fin (2 ^ 64)) (S : StatsSelect) (table : String)
    (is_query_parallelized : Bool) (_sorting_type : SortOp) (limit : Nat)
    (plan : List (List (List (Sample δ)))) : Option (MapBuf δ) :=
  if S.IsMergeNeeded then
    runQuery hash_range S (processQueryLimit table is_query_parallelized limit) limit plan
  else collectQuery hash_range S (processQueryLimit table is_query_parallelized limit) plan

omit [Numerics δ] in
theorem entries_applyLimit (limit : Nat) (m : MapBuf δ) :
    (applyLimit limit m).entries = cut limit m.entries := by
  unfold applyLimit cut
  split <;> rfl

omit [Numerics δ] in
theorem heads_applyLimit (S : StatsSelect) (limit : Nat) (m : MapBuf δ) :
    heads S (applyLimit limit m) = cut limit (heads S m) := by
  unfold heads
  rw [entries_applyLimit, map_cut]

variable {hash_range : StatMap δ → Fin (2 ^ 64)} {S : StatsSelect} {rows : List (Sample δ)}

/-- The first groups, of the merged chunks and of all rows. -/
theorem heads_truncate (hplain : PlainSort S)
    {Total : List (StatMap δ × AggRow δ) → StatMap δ × AggRow δ → Prop}
    (hR : Regular hash_range S Total rows) {L : Nat} (hL : 0 < L)
    {plan : List (List (List (Sample δ)))} (hperm : plan.flatten.flatten.Perm rows) :
    ∃ out full, runQuery hash_range S L L plan = some out ∧
      aggregateAtOnce hash_range S rows = some full ∧ heads S out = cut L (heads S full) := by
  obtain ⟨m, m₀, hm, hm₀, hrep, hrep₀, -, htake⟩ := truncate_keys hplain hR hL hperm
  refine ⟨applyLimit L m, m₀, hm, hm₀, ?_⟩
  have hhas : KeyHasAll S := Or.inr hplain.noAggSort
  have hheads : ∀ m : MapBuf δ, cut L (heads S m) =
      (cut L (m.entries.map fun e => (e.1, e.2.1))).map fun e => (sortKey S e.1, e.2) := by
    intro m
    rw [map_cut, List.map_map]
    exact congrArg _ (List.map_congr_left fun e _ => Prod.ext (sortValues_eq hhas e) rfl)
  rw [heads_applyLimit, hheads, hheads]
  refine congrArg _ ?_
  unfold cut
  rw [if_pos hL.ne', if_pos hL.ne']
  have hstrict : ∀ {m : MapBuf δ} {cs}, Holds hash_range S Total m cs →
      KeysLt ((m.entries.map fun e => (e.1, e.2.1)).take L) := fun hm =>
    List.Pairwise.sublist (List.take_sublist ..) (List.pairwise_map.mpr hm.keyed.strict)
  refine KeysLt.eq_of_subset (hstrict hrep) (hstrict hrep₀) ?_ ?_
  · rw [List.map_take, List.map_take, List.map_map, List.map_map]
    exact htake
  · -- the same key is the same group
    intro x hx
    rw [← List.map_take] at hx ⊢
    obtain ⟨e, he, rfl⟩ := List.mem_map.mp hx
    have hkey : e.1 ∈ (m₀.entries.take L).map Prod.fst := by
      rw [List.map_take, ← htake, ← List.map_take]
      exact List.mem_map_of_mem he
    obtain ⟨e₀, he₀, heq⟩ := List.mem_map.mp hkey
    refine List.mem_map.mpr ⟨e₀, he₀, Prod.ext heq ?_⟩
    have hin := List.mem_of_mem_take he
    have hin₀ := List.mem_of_mem_take he₀
    obtain ⟨c, hc, hce⟩ := hrep.exists_contribution hR.isTotal hin
    obtain ⟨c₀, hc₀, hce₀⟩ := hrep₀.exists_contribution hR.isTotal hin₀
    obtain ⟨s, hs, rfl⟩ := From.flatten (keptParts_from (mem_rows_of_perm hperm)) c hc
    obtain ⟨s₀, hs₀, rfl⟩ := List.mem_map.mp hc₀
    have hkeys : keyOf hash_range S (buildUniks S s₀) = keyOf hash_range S (buildUniks S s) := by
      have h₁ := hrep.keyed.key_eq e hin
      have h₀ := hrep₀.keyed.key_eq e₀ hin₀
      rw [← hce] at h₁
      rw [← hce₀] at h₀
      exact (h₀.symm.trans heq).trans h₁
    have hgroup : buildUniks S s₀ = buildUniks S s := hR.separated s₀ hs₀ s hs hkeys
    calc e₀.2.1 = buildUniks S s₀ := hce₀.symm
      _ = buildUniks S s := hgroup
      _ = e.2.1 := hce

/-- Every aggregate of the sort list is selected and has a slot in the key. -/
def AggSortReady (S : StatsSelect) : Prop :=
  ∀ x ∈ S.agg_sort_cols_.entries, Selected S x.1 ∧ x.2 ≤ S.hash_slot

omit [LinearOrder δ] [Numerics δ] in
theorem contributes_of_selected {s : Sample δ} (hcar : CarriesAll S s) {k : AggKey}
    (hk : Selected S k) : Contributes S s.row k := by
  rcases hk with hop | hrest
  · exact Or.inl ⟨hop, hcar.2 _ _ hop⟩
  · exact Or.inr hrest

omit [LinearOrder δ] [Numerics δ] in
theorem MergedSelect.dropped (hS : MergedSelect S) (hkeep : KeepsHash S)
    (hready : AggSortReady S) : DroppedSelect S S.count_distinct_field_ where
  status := hS.status
  noT := hS.noT
  field := rfl
  noBlank := hS.noBlank
  keepsHash := hkeep
  unsorted hne := absurd hS.noDistinct hne
  hashFree hne := absurd hS.noDistinct hne
  slots x hx := (hready x hx).2

omit [LinearOrder δ] [Numerics δ] in
/-- Without a COUNT_DISTINCT, rows that carry every selected column have all totals. -/
theorem totalsReach_of_carriesAll (hS : MergedSelect S) (hready : AggSortReady S)
    (hcar : ∀ s ∈ rows, CarriesAll S s)
    (hinj : ∀ s ∈ rows, ∀ s' ∈ rows, hash_range (buildUniks S s) = hash_range (buildUniks S s') →
      buildUniks S s = buildUniks S s')
    (hsort : ∀ s ∈ rows, (buildKey hash_range S (buildUniks S s)).isSome = true)
    {plan : List (List (List (Sample δ)))} (hperm : plan.flatten.flatten.Perm rows) :
    TotalsReach hash_range S S.count_distinct_field_ (fun _ _ => .uint64) plan rows := by
  have hgroup : ∀ s : Sample δ, groupOf S S.count_distinct_field_ s = buildUniks S s := by
    intro s
    rw [hS.noDistinct]
    exact OrderedMap.erase_eq_self (hS.find?_blank s)
  have hocc : ∀ {u}, Occurs S S.count_distinct_field_ rows u → ∃ s ∈ rows, u = buildUniks S s := by
    rintro u ⟨s, hs, hu | hu⟩
    · exact ⟨s, hs, hu⟩
    · exact ⟨s, hs, hu.trans (hgroup s)⟩
  have hselected : ∀ k, (S.agg_sort_cols_.find? k).isSome = true → Selected S k := by
    intro k hk
    obtain ⟨slot, hslot⟩ := Option.isSome_iff_exists.mp hk
    exact (hready (k, slot) (OrderedMap.mem_entries.mpr hslot)).1
  refine ⟨hperm, ⟨hsort, ?_⟩, fun s hs => rowKinds_of_uintRow (hcar s hs).1, ?_, ?_⟩
  · intro u u' hu hu' heq
    obtain ⟨s, hs, rfl⟩ := hocc hu
    obtain ⟨s', hs', rfl⟩ := hocc hu'
    exact hinj s hs s' hs' heq
  · intro s hs k hk
    refine ⟨fun _ => rfl, reaches_of_all (parts_perm hperm) ⟨s, hs, rfl⟩ fun s' hs' _ => ?_⟩
    exact contributes_of_selected (hcar s' hs') (hselected k hk.1)
  · intro hk
    rcases hselected _ hk with hop | ⟨hcls, -⟩ | ⟨hcnt, -⟩
    · cases hop
    · cases hcls
    · cases hcnt

/-- There is a result with the totals of all groups, each under the key of its own
columns, and the reported rows are the beginning of it, whatever order was asked
for. -/
theorem reported_heads {known : String → Bool} {select_fields sort_fields : List String}
    (hbuild : build known select_fields sort_fields = some S) (hS : MergedSelect S)
    (hkeep : KeepsHash S) (hready : AggSortReady S) (hcar : ∀ s ∈ rows, CarriesAll S s)
    (hinj : ∀ s ∈ rows, ∀ s' ∈ rows, hash_range (buildUniks S s) = hash_range (buildUniks S s') →
      buildUniks S s = buildUniks S s')
    (hsort : ∀ s ∈ rows, (buildKey hash_range S (buildUniks S s)).isSome = true)
    (table : String) (is_query_parallelized : Bool) (sorting_type : SortOp) (limit : Nat)
    {plan : List (List (List (Sample δ)))} (hperm : plan.flatten.flatten.Perm rows)
    (hcuts : S.agg_sort_cols_.isEmpty = true ∨
      processQueryLimit table is_query_parallelized limit = 0 ∨
      ∀ chunks ∈ plan, ∀ chunk ∈ chunks,
        groupCount S chunk ≤ processQueryLimit table is_query_parallelized limit) :
    ∃ out full,
      reportedMap hash_range S table is_query_parallelized sorting_type limit plan = some out ∧
      GroupTotals hash_range S rows full ∧ InOrder hash_range S full ∧
      heads S out = cut limit (heads S full) := by
  have hslots := build_slots_nodup hbuild
  have hD := hS.dropped hkeep hready
  have hmerged : S.IsMergeNeeded = true := by simp [IsMergeNeeded, hS.noT]
  have hsmall : (processQueryLimit table is_query_parallelized limit = 0 ∨
      ∀ chunks ∈ plan, ∀ chunk ∈ chunks,
        groupCount S chunk ≤ processQueryLimit table is_query_parallelized limit) →
      ∃ out full, reportedMap hash_range S table is_query_parallelized sorting_type limit plan =
        some out ∧ GroupTotals hash_range S rows full ∧ InOrder hash_range S full ∧
        heads S out = cut limit (heads S full) := by
    intro hsmall
    obtain ⟨full, hrun, htotals, hord⟩ := runQuery_full hslots hD
      (totalsReach_of_carriesAll hS hready hcar hinj hsort hperm) limit hsmall
    exact ⟨_, full, (if_pos hmerged).trans hrun, htotals, hord, heads_applyLimit S limit full⟩
  by_cases hzero : processQueryLimit table is_query_parallelized limit = 0
  · exact hsmall (Or.inl hzero)
  · rcases hcuts with hagg | hcuts
    · -- plain columns: the chunks may be cut
      have hlimit : processQueryLimit table is_query_parallelized limit = limit := by
        unfold processQueryLimit at hzero ⊢
        split at hzero
        · next hcond => rw [if_pos hcond]
        · exact absurd rfl hzero
      rw [hlimit] at hzero
      have hR := regular_of_carriesAll hS.status hS.noT hslots hkeep hcar hinj hsort
      obtain ⟨out, full, hrun, hfull, hheads⟩ :=
        heads_truncate ⟨hS, hagg⟩ hR (Nat.pos_of_ne_zero hzero) hperm
      -- all rows in one chunk, with no limit
      have hone : [[rows]].flatten.flatten.Perm rows := by simp
      obtain ⟨full', hrun', htotals, hord⟩ := runQuery_full hslots hD
        (totalsReach_of_carriesAll hS hready hcar hinj hsort hone) 0 (Or.inl rfl)
      have hsame : full' = full := by
        have honce : aggregateAtOnce hash_range S rows = some full' := by
          simpa [aggregateAtOnce, applyLimit] using hrun'
        exact Option.some.inj (honce.symm.trans hfull)
      subst hsame
      refine ⟨out, full', ?_, htotals, hord, hheads⟩
      rw [reportedMap, if_pos hmerged, hlimit]
      exact hrun
    · exact hsmall hcuts

-- ---------------------------------------------------------------------------
-- Queries without a merge
-- ---------------------------------------------------------------------------

omit [Numerics δ] in
theorem insertAll_perm (input output : MapBuf δ) :
    (insertAll input output).entries.Perm (input.entries ++ output.entries) := by
  unfold insertAll
  generalize input.entries = es
  induction es generalizing output with
  | nil => exact List.Perm.refl _
  | cons e es ih =>
    rw [List.foldl_cons]
    have hone : (output.insertLower e.1 e.2).entries.Perm (e :: output.entries) :=
      List.perm_orderedInsert _ _ _
    exact ((ih _).trans (hone.append_left es)).trans List.perm_middle

omit [Numerics δ] in
theorem foldl_insertAll_perm (ms : List (MapBuf δ)) (out : MapBuf δ) :
    (ms.foldl (fun res sub => insertAll sub res) out).entries.Perm
      ((ms.map fun m => m.entries).flatten ++ out.entries) := by
  induction ms generalizing out with
  | nil => exact List.Perm.refl _
  | cons m ms ih =>
    rw [List.foldl_cons, List.map_cons, List.flatten_cons]
    refine (ih _).trans ?_
    refine ((insertAll_perm m out).append_left _).trans ?_
    rw [← List.append_assoc]
    exact List.perm_append_comm.append_right _

/-- The result has the entries that the cuts of the chunks leave. -/
theorem collectQuery_perm {chunkLimit : Nat} {plan : List (List (List (Sample δ)))}
    {loaded : List (Sample δ) → MapBuf δ}
    (hload : ∀ chunks ∈ plan, ∀ chunk ∈ chunks,
      loadChunk hash_range S chunk = some (loaded chunk)) :
    ∃ out, collectQuery hash_range S chunkLimit plan = some out ∧
      out.entries.Perm
        (plan.flatten.map fun chunk => cut chunkLimit (loaded chunk).entries).flatten := by
  have hinstance : ∀ chunks ∈ plan, collectInstance hash_range S chunkLimit chunks =
      some ((chunks.map fun chunk => applyLimit chunkLimit (loaded chunk)).foldl
        (fun res sub => insertAll sub res) .empty) := by
    intro chunks hchunks
    have hone := hload chunks hchunks
    unfold collectInstance
    generalize (Multimap.empty : MapBuf δ) = out
    clear hchunks
    induction chunks generalizing out with
    | nil => rfl
    | cons chunk chunks ih =>
      rw [List.foldlM_cons, hone chunk List.mem_cons_self, List.map_cons, List.foldl_cons]
      exact ih (fun c hc => hone c (List.mem_cons_of_mem _ hc)) _
  refine ⟨_, by rw [collectQuery, mapM_eq_some_map hinstance]; rfl, ?_⟩
  refine (foldl_insertAll_perm _ _).trans ?_
  have hempty : (Multimap.empty : MapBuf δ).entries = [] := rfl
  rw [hempty, List.append_nil, List.map_map]
  clear hload hinstance
  induction plan with
  | nil => exact List.Perm.refl _
  | cons chunks plan ih =>
    rw [List.map_cons, List.flatten_cons, List.flatten_cons, List.map_append, List.flatten_append]
    refine List.Perm.append ?_ ih
    refine (foldl_insertAll_perm _ _).trans ?_
    rw [hempty, List.append_nil, List.map_map]
    refine List.Perm.of_eq (congrArg _ (List.map_congr_left fun chunk _ => ?_))
    exact entries_applyLimit chunkLimit (loaded chunk)

/-- What a query without `T` needs for its groups and their totals to be right at all. -/
structure TotalsRight (hash_range : StatMap δ → Fin (2 ^ 64)) (S : StatsSelect) (table : String)
    (is_query_parallelized : Bool) (limit : Nat) (rows : List (Sample δ))
    (plan : List (List (List (Sample δ)))) : Prop where
  built : ∃ known select_fields sort_fields, build known select_fields sort_fields = some S
  merged : MergedSelect S
  keepsHash : KeepsHash S
  aggSort : AggSortReady S
  carries : ∀ s ∈ rows, CarriesAll S s
  separated : ∀ s ∈ rows, ∀ s' ∈ rows,
    hash_range (buildUniks S s) = hash_range (buildUniks S s') → buildUniks S s = buildUniks S s'
  sorts : ∀ s ∈ rows, (buildKey hash_range S (buildUniks S s)).isSome = true
  planned : plan.flatten.flatten.Perm rows
  cuts : S.agg_sort_cols_.isEmpty = true ∨
    processQueryLimit table is_query_parallelized limit = 0 ∨
    ∀ chunks ∈ plan, ∀ chunk ∈ chunks,
      groupCount S chunk ≤ processQueryLimit table is_query_parallelized limit

/-- What a query with `T` in the SELECT needs for its rows to be loaded. -/
structure TimedRight (hash_range : StatMap δ → Fin (2 ^ 64)) (S : StatsSelect)
    (rows : List (Sample δ)) (plan : List (List (List (Sample δ)))) : Prop where
  status : S.status_ = true
  timed : S.isT_ = true
  unsigned : ∀ s ∈ rows, UIntRow S s.row
  separated : KeysDistinct hash_range S rows
  sorts : ∀ s ∈ rows, (buildKey hash_range S (buildUniks S s)).isSome = true
  planned : plan.flatten.flatten.Perm rows

/-- How many groups of a chunk are reported where nothing is merged. -/
def reportedGroups (S : StatsSelect) (chunkLimit : Nat) (chunk : List (Sample δ)) : Nat :=
  if chunkLimit ≠ 0 then min chunkLimit (groupCount S chunk) else groupCount S chunk

/-- Every group of a chunk has one entry. -/
theorem exists_loaded (h : TimedRight hash_range S rows plan) {chunk : List (Sample δ)}
    (hsub : ∀ s ∈ chunk, s ∈ rows) :
    ∃ m, loadChunk hash_range S chunk = some m ∧ m.entries.length = groupCount S chunk ∧
      ∀ u, (∃ e ∈ m.entries, e.2.1 = u) ↔ ∃ s ∈ chunk, buildUniks S s = u := by
  have hR := regular_of_single keysOfFirst_isTotal h.status h.separated h.unsigned h.sorts
    fun s hs => keysOfFirst_singleton (contribution_typed (h.unsigned s hs)).2
  obtain ⟨m, hm, hrep⟩ := loadChunk_represents hR hsub
  have hgroups : ∀ u, (∃ e ∈ m.entries, e.2.1 = u) ↔ ∃ s ∈ chunk, buildUniks S s = u := by
    intro u
    constructor
    · rintro ⟨e, he, rfl⟩
      obtain ⟨c, hc, hce⟩ := hrep.exists_contribution hR.isTotal he
      obtain ⟨s, hs, rfl⟩ := List.mem_map.mp hc
      exact ⟨s, hs, hce⟩
    · rintro ⟨s, hs, rfl⟩
      exact hrep.covered _ (List.mem_map_of_mem hs)
  refine ⟨m, hm, le_antisymm (hrep.size_le_groupCount hR.isTotal) ?_, hgroups⟩
  have hsubset : (chunk.map (buildUniks S)).dedup ⊆ m.entries.map fun e => e.2.1 := by
    intro u hu
    obtain ⟨s, hs, rfl⟩ := List.mem_map.mp (List.mem_dedup.mp hu)
    exact List.mem_map.mpr ((hgroups _).mpr ⟨s, hs, rfl⟩)
  have hlen := (List.subperm_of_subset (List.nodup_dedup _) hsubset).length_le
  rwa [List.length_map] at hlen

/-- Without a merge each chunk's groups are reported, as far as the cut of the chunk
leaves them. -/
theorem reported_timed (h : TimedRight hash_range S rows plan) (table : String)
    (is_query_parallelized : Bool) (sorting_type : SortOp) (limit : Nat) :
    ∃ out chunks, reportedMap hash_range S table is_query_parallelized sorting_type limit plan =
        some out ∧
      plan.flatten.mapM (loadChunk hash_range S) = some chunks ∧
      (chunks.map fun m => m.entries.length) = plan.flatten.map (groupCount S) ∧
      (∀ u, (∃ m ∈ chunks, ∃ e ∈ m.entries, e.2.1 = u) ↔ ∃ s ∈ rows, buildUniks S s = u) ∧
      out.entries.Perm (chunks.map fun m =>
        cut (processQueryLimit table is_query_parallelized limit) m.entries).flatten := by
  have hsub : ∀ chunk ∈ plan.flatten, ∀ s ∈ chunk, s ∈ rows := fun chunk hchunk s hs =>
    h.planned.mem_iff.mp (List.mem_flatten_of_mem hchunk hs)
  -- the loaded chunks, as a function of the chunk
  let loaded : List (Sample δ) → MapBuf δ := fun chunk => (loadChunk hash_range S chunk).getD .empty
  have hloaded : ∀ chunk ∈ plan.flatten, loadChunk hash_range S chunk = some (loaded chunk) ∧
      (loaded chunk).entries.length = groupCount S chunk ∧
      ∀ u, (∃ e ∈ (loaded chunk).entries, e.2.1 = u) ↔ ∃ s ∈ chunk, buildUniks S s = u := by
    intro chunk hchunk
    obtain ⟨m, hm, hrest⟩ := exists_loaded h (hsub chunk hchunk)
    have heq : loaded chunk = m := by
      show (loadChunk hash_range S chunk).getD .empty = m
      rw [hm]
      rfl
    rw [heq]
    exact ⟨hm, hrest⟩
  obtain ⟨out, hout, hperm⟩ := collectQuery_perm
    fun chunks hchunks chunk hchunk => (hloaded chunk (List.mem_flatten_of_mem hchunks hchunk)).1
  have hunmerged : S.IsMergeNeeded = false := by rw [IsMergeNeeded, h.timed]; rfl
  refine ⟨out, plan.flatten.map loaded, ?_, mapM_eq_some_map fun c hc => (hloaded c hc).1,
    ?_, ?_, ?_⟩
  · rw [reportedMap, if_neg (by rw [hunmerged]; exact Bool.false_ne_true)]
    exact hout
  · rw [List.map_map]
    exact List.map_congr_left fun c hc => (hloaded c hc).2.1
  · intro u
    constructor
    · rintro ⟨m, hm, he⟩
      obtain ⟨c, hc, rfl⟩ := List.mem_map.mp hm
      obtain ⟨s, hs, hu⟩ := ((hloaded c hc).2.2 u).mp he
      exact ⟨s, hsub c hc s hs, hu⟩
    · rintro ⟨s, hs, hu⟩
      obtain ⟨c, hc, hs⟩ := List.mem_flatten.mp (h.planned.mem_iff.mpr hs)
      exact ⟨loaded c, List.mem_map_of_mem hc, ((hloaded c hc).2.2 u).mpr ⟨s, hs, hu⟩⟩
  · rw [List.map_map]
    exact hperm

end Queries

end TfAnalytics.QueryEngine.StatsSelect
