import TfAnalytics.QueryEngine.StatsLimit

/-!
# Query engine — one row per group, with all its rows

A group of a stats query is meant to have one entry of the output multimap, with
the totals of all its rows. Both rest on lookups: `MergeFullRow` looks for the
group at the first entry of its key, and `MergeAggRow` looks the aggregates of
the entry up in the new row.

* `one_row_per_group_iff` — the groups have one entry each exactly when the first
  group that came with a key is the only one that comes back to it. Without
  colliding hashes this is always so (`steady_of_separated`).
* `aggregates_cover_iff` — the SUM, MAX or MIN of a column is that of all rows
  with the column, in whatever order they are loaded and merged, exactly when all
  rows with aggregates have the column or none has.
-/

namespace TfAnalytics.QueryEngine.StatsSelect

open TfAnalytics.Lib

variable {δ : Type} [LinearOrder δ] [Numerics δ]

-- ---------------------------------------------------------------------------
-- Sequences of calls
-- ---------------------------------------------------------------------------

/-- A call on the output multimap. -/
inductive Call (δ : Type) [LinearOrder δ] where
  | LoadRow (s : Sample δ)
  | Merge (count_distinct_field_ : String) (input : MapBuf δ)

section Calls

variable (hash_range : StatMap δ → Fin (2 ^ 64)) (S : StatsSelect)

def Call.apply (output : MapBuf δ) : Call δ → Option (MapBuf δ)
  | .LoadRow s => StatsSelect.LoadRow hash_range S s output
  | .Merge field input => StatsSelect.Merge hash_range field input output

/-- A sequence of calls on an empty multimap. -/
def runCalls (calls : List (Call δ)) : Option (MapBuf δ) :=
  calls.foldlM (Call.apply hash_range S) .empty

/-- What a call passes to `MergeFullRow`, one after the other. -/
def Call.fullRows : Call δ → List (SortKey δ × (StatMap δ × AggRow δ))
  | .LoadRow s =>
    if S.status_ = false then []
    else [(keyOf hash_range S (buildUniks S s), contribution hash_range S s)]
  | .Merge field input => input.entries.map (dropDistinct hash_range field)

variable {hash_range S}

theorem Call.apply_eq {call : Call δ} {output m : MapBuf δ}
    (h : call.apply hash_range S output = some m) :
    output.mergeAll sameUniks mergeAggs (call.fullRows hash_range S) = some m := by
  cases call with
  | LoadRow s =>
    have h : StatsSelect.LoadRow hash_range S s output = some m := h
    rw [Call.fullRows]
    by_cases hst : S.status_ = false
    · rw [if_pos hst]
      rw [StatsSelect.LoadRow, if_pos hst] at h
      exact h
    · rw [if_neg hst]
      have hst : S.status_ = true := by simpa using hst
      by_cases hload : Loadable hash_range S s
      · rw [loadRow_eq hash_range S hst hload] at h
        show [_].foldlM _ output = some m
        rw [List.foldlM_cons, h]
        rfl
      · rw [loadRow_eq_none hash_range S hst hload] at h
        cases h
  | Merge field input =>
    have h : mergeEntries hash_range field input.entries output = some m := h
    rw [Call.fullRows, Multimap.mergeAll, List.foldlM_map]
    exact h

theorem runCalls_eq {calls : List (Call δ)} {m : MapBuf δ}
    (h : runCalls hash_range S calls = some m) :
    Multimap.mergeAll sameUniks mergeAggs (calls.flatMap (Call.fullRows hash_range S)) .empty =
      some m := by
  unfold runCalls at h
  generalize (Multimap.empty : MapBuf δ) = output at h
  induction calls generalizing output with
  | nil => exact h
  | cons call calls ih =>
    rw [List.foldlM_cons] at h
    obtain ⟨m₁, hm₁, h⟩ := Option.bind_eq_some_iff.mp h
    have hfirst : output.mergeAll sameUniks mergeAggs (call.fullRows hash_range S) = some m₁ :=
      Call.apply_eq hm₁
    unfold Multimap.mergeAll at hfirst ih ⊢
    rw [List.flatMap_cons, List.foldlM_append, hfirst]
    exact ih m₁ h

theorem mergeAggs_group {b b' b'' : StatMap δ × AggRow δ} (h : mergeAggs b b' = some b'') :
    b''.1 = b.1 := by
  obtain ⟨r, -, rfl⟩ := Option.map_eq_some_iff.mp h
  rfl

/-- No two entries are of one group, exactly when every group that comes again
finds itself at the first entry of its key. -/
theorem one_row_per_group_iff {calls : List (Call δ)} {m : MapBuf δ}
    (h : runCalls hash_range S calls = some m) :
    (m.entries.map fun e => e.2.1).Nodup ↔
      Steady Prod.fst (calls.flatMap (Call.fullRows hash_range S)) :=
  (groups_mergeAll sameUniks_iff mergeAggs_group (runCalls_eq h)).2.2

end Calls

/-- Two rows of one group and one of another, whose hashes differ. -/
theorem one_row_per_group_sample :
    ∃ (S : StatsSelect) (m : MapBuf Nat), build (fun _ => true) ["a"] [] = some S ∧
      runCalls sampleHash S [.LoadRow (numberRow [("a", 1)]), .LoadRow (numberRow [("a", 2)]),
        .LoadRow (numberRow [("a", 2)])] = some m ∧ (m.entries.map fun e => e.2.1).Nodup := by
  obtain ⟨S, hS⟩ := Option.isSome_iff_exists.mp
    (show (build (fun _ => true) ["a"] []).isSome = true by decide)
  let calls : List (Call Nat) := [.LoadRow (numberRow [("a", 1)]), .LoadRow (numberRow [("a", 2)]),
    .LoadRow (numberRow [("a", 2)])]
  have hrun : ((build (fun _ => true) ["a"] []).bind fun S => runCalls sampleHash S calls).isSome
      = true := by
    decide +kernel
  have hkeys : ((build (fun _ => true) ["a"] []).map fun S =>
      decide (∀ d ∈ calls.flatMap (Call.fullRows sampleHash S),
        ∀ e ∈ calls.flatMap (Call.fullRows sampleHash S), d.1 = e.1 ↔ d.2.1 = e.2.1)) =
      some true := by
    decide +kernel
  rw [hS] at hrun hkeys
  obtain ⟨m, hm⟩ := Option.isSome_iff_exists.mp hrun
  have hkeys := of_decide_eq_true (Option.some.inj hkeys)
  exact ⟨S, m, hS, hm, (one_row_per_group_iff hm).mpr (steady_of_separated hkeys)⟩

/-- Two groups with one hash: the second never finds its entry behind the first,
and each of its rows gets an entry. -/
theorem colliding_group_twice :
    ∃ (S : StatsSelect) (m : MapBuf Nat), build (fun _ => true) ["a"] [] = some S ∧
      runCalls (fun _ => 0) S [.LoadRow (numberRow [("a", 1)]), .LoadRow (numberRow [("a", 2)]),
        .LoadRow (numberRow [("a", 2)])] = some m ∧ ¬ (m.entries.map fun e => e.2.1).Nodup := by
  obtain ⟨S, hS⟩ := Option.isSome_iff_exists.mp
    (show (build (fun _ => true) ["a"] []).isSome = true by decide)
  have hrun : ((build (fun _ => true) ["a"] []).bind fun S =>
      (runCalls (fun _ => 0) S [.LoadRow (numberRow [("a", 1)]), .LoadRow (numberRow [("a", 2)]),
        .LoadRow (numberRow [("a", 2)])]).map fun m =>
          decide (m.entries.map fun e => e.2.1).Nodup) = some false := by
    decide +kernel
  rw [hS] at hrun
  obtain ⟨m, hm, hnodup⟩ := Option.map_eq_some_iff.mp hrun
  exact ⟨S, m, hS, hm, of_decide_eq_false hnodup⟩

-- ---------------------------------------------------------------------------
-- The value a row contributes
-- ---------------------------------------------------------------------------

/-- The value of a column; `LoadRow` takes the first of its name. -/
def columnValue (row : List (StatEntry δ)) (f : String) : Option (StatVal δ) :=
  (row.find? fun it => it.name = f).map fun it => it.value

omit [LinearOrder δ] [Numerics δ] in
theorem columnValue_cons (it : StatEntry δ) (row : List (StatEntry δ)) (f : String) :
    columnValue (it :: row) f = if it.name = f then some it.value else columnValue row f := by
  unfold columnValue
  by_cases hname : it.name = f
  · rw [if_pos hname, List.find?_cons_of_pos (by simpa using hname)]
    rfl
  · rw [if_neg hname, List.find?_cons_of_neg (by simpa using hname)]

omit [LinearOrder δ] [Numerics δ] in
theorem columnValue_isSome_iff {row : List (StatEntry δ)} {f : String} :
    (columnValue row f).isSome = true ↔ HasColumn row f := by
  simp [columnValue, HasColumn]

theorem aggkey_eq_iff {op op' : AggOper} {f f' : String} :
    aggkey op f = aggkey op' f' ↔ op = op' ∧ f = f' := by
  simp [aggkey]

omit [LinearOrder δ] [Numerics δ] in
/-- The pairs that one operator makes of the columns it is applied to. -/
theorem findList_pairs {op : AggOper} {f : String} {cols : StringSet} (hcols : cols.has f = true)
    (row : List (StatEntry δ)) :
    findList (aggkey op f) ((row.filter fun it => cols.has it.name).map
      fun it => (aggkey op it.name, it.value)) = columnValue row f := by
  induction row with
  | nil => rfl
  | cons it row ih =>
    rw [columnValue_cons, List.filter_cons]
    by_cases hname : it.name = f
    · rw [if_pos (hname ▸ hcols), if_pos hname, List.map_cons, findList,
        if_pos (aggkey_eq_iff.mpr ⟨rfl, hname.symm⟩)]
    · rw [if_neg hname, ← ih]
      split
      · rw [List.map_cons, findList, if_neg fun h => hname (aggkey_eq_iff.mp h).2.symm]
      · rfl

omit [LinearOrder δ] in
/-- What the second pass has for a MAX or MIN. -/
theorem findList_otherAggs {S : StatsSelect} {op : AggOper} (hop : op = .MAX ∨ op = .MIN) {f : String}
    (hcols : opCols S op f = true) {it : StatEntry δ} {r : List (AggKey × StatVal δ)}
    (h : otherAggs S it = some r) :
    findList (aggkey op f) r = if it.name = f then some it.value else none := by
  unfold otherAggs at h
  obtain ⟨avg, havg, h⟩ := Option.bind_eq_some_iff.mp h
  obtain ⟨pct, hpct, h⟩ := Option.bind_eq_some_iff.mp h
  obtain rfl := Option.some.inj h
  have hdouble : ∀ {has : Bool} {op' : AggOper} {start : δ → StatVal δ} {l}, op ≠ op' →
      doublePair has op' start it = some l → findList (aggkey op f) l = none := by
    intro has op' start l hne hl
    unfold doublePair at hl
    cases has with
    | false => rw [← Option.some.inj hl]; rfl
    | true =>
      obtain ⟨d, -, rfl⟩ := Option.map_eq_some_iff.mp hl
      rw [findList, if_neg fun h => hne (aggkey_eq_iff.mp h).1]
      rfl
  have hneAvg : op ≠ .AVG := by rcases hop with rfl | rfl <;> decide
  have hnePct : op ≠ .PERCENTILES := by rcases hop with rfl | rfl <;> decide
  rw [findList_append, findList_append, findList_append, hdouble hneAvg havg, hdouble hnePct hpct,
    Option.or_none, Option.or_none]
  have hpart : ∀ (op' : AggOper) (has : Bool),
      findList (aggkey op f) (if has then [(aggkey op' it.name, it.value)] else []) =
        if op = op' ∧ it.name = f ∧ has = true then some it.value else none := by
    intro op' has
    cases has with
    | false => simp [findList]
    | true => simp [findList, aggkey_eq_iff, eq_comm]
  rw [hpart, hpart]
  by_cases hname : it.name = f
  · rcases hop with rfl | rfl
    · have hhas : S.max_field_.has f = true := hcols
      simp [hname, hhas]
    · have hhas : S.min_field_.has f = true := hcols
      simp [hname, hhas]
  · simp [hname]

omit [LinearOrder δ] in
theorem findList_others {S : StatsSelect} {op : AggOper} (hop : op = .MAX ∨ op = .MIN) {f : String}
    (hcols : opCols S op f = true) {row : List (StatEntry δ)} {others : List (AggKey × StatVal δ)}
    (h : collectM (otherAggs S) row = some others) :
    findList (aggkey op f) others = columnValue row f := by
  induction row generalizing others with
  | nil =>
    obtain rfl := Option.some.inj h
    rfl
  | cons it row ih =>
    simp only [collectM, Option.bind_eq_bind, Option.bind_eq_some_iff, Option.some.injEq] at h
    obtain ⟨xs, hxs, rest, hrest, rfl⟩ := h
    rw [findList_append, findList_otherAggs hop hcols hxs, ih hrest, columnValue_cons]
    split <;> rfl

omit [LinearOrder δ] in
/-- A row that loads contributes the value of the column to its SUM, MAX and MIN. -/
theorem contribution_find?_of_loadsAs {hash_range : StatMap δ → Fin (2 ^ 64)} {S : StatsSelect}
    {op : AggOper} (hop : op = .SUM ∨ op = .MAX ∨ op = .MIN) {f : String}
    (hcols : opCols S op f = true) {s : Sample δ} {W : AggKey → StatVal δ → Prop}
    (hloads : LoadsAs W S s.row) :
    (contribution hash_range S s).2.find? (aggkey op f) = columnValue s.row f := by
  obtain ⟨a, ha, -, hkeys⟩ := buildAggs_spec hash_range (buildUniks S s) hloads
  unfold contribution
  rw [ha, Option.getD_some]
  cases hvalue : columnValue s.row f with
  | none =>
    have hnone : ¬ Contributes S s.row (aggkey op f) := by
      rintro (⟨-, hcol⟩ | ⟨hclass, -⟩ | ⟨hcount, -⟩)
      · have := columnValue_isSome_iff.mpr hcol
        rw [show AggKey.field (aggkey op f) = f from rfl, hvalue] at this
        cases this
      · rcases hop with rfl | rfl | rfl <;> cases hclass
      · rcases hop with rfl | rfl | rfl <;> cases hcount
    rw [← hkeys] at hnone
    simpa using hnone
  | some v =>
    unfold buildAggs at ha
    obtain ⟨others, hothers, ha⟩ := Option.bind_eq_some_iff.mp ha
    obtain rfl := Option.some.inj ha
    rw [OrderedMap.find?_ofList, findList_append, findList_append, findList_append]
    rcases hop with rfl | hop
    · rw [findList_pairs (show S.sum_cols_.has f = true from hcols), hvalue]
      rfl
    · have hsums : findList (aggkey op f) ((s.row.filter fun it => S.sum_cols_.has it.name).map
          fun it => (aggkey .SUM it.name, it.value)) = none := by
        rw [← Option.not_isSome_iff_eq_none, findList_isSome_iff]
        rintro ⟨v, hmem⟩
        obtain ⟨it, -, heq⟩ := List.mem_map.mp hmem
        have hsum := (aggkey_eq_iff.mp (Prod.mk.inj heq).1).1
        rcases hop with rfl | rfl <;> cases hsum
      rw [hsums, findList_others hop hcols hothers, hvalue]
      rfl

omit [LinearOrder δ] in
theorem contribution_find? {hash_range : StatMap δ → Fin (2 ^ 64)} {S : StatsSelect} {op : AggOper}
    (hop : op = .SUM ∨ op = .MAX ∨ op = .MIN) {f : String} (hcols : opCols S op f = true)
    {s : Sample δ} (huint : UIntRow S s.row) :
    (contribution hash_range S s).2.find? (aggkey op f) = columnValue s.row f :=
  contribution_find?_of_loadsAs hop hcols (loadsAs_of_uintRow huint)

-- ---------------------------------------------------------------------------
-- The totals of a group
-- ---------------------------------------------------------------------------

/-- How the rows get into a multimap: loaded one by one, or merged in with
another multimap that was made the same way. -/
inductive CallTree (δ : Type) where
  | empty
  | loadRow (output : CallTree δ) (s : Sample δ)
  | merge (output : CallTree δ) (count_distinct_field_ : String) (input : CallTree δ)

namespace CallTree

def rows : CallTree δ → List (Sample δ)
  | empty => []
  | loadRow output s => output.rows ++ [s]
  | merge output _ input => output.rows ++ input.rows

/-- The columns that merges are asked to count the values of. -/
def fields : CallTree δ → List String
  | empty => []
  | loadRow output _ => output.fields
  | merge output field input => field :: output.fields ++ input.fields

def eval (hash_range : StatMap δ → Fin (2 ^ 64)) (S : StatsSelect) : CallTree δ → Option (MapBuf δ)
  | empty => some .empty
  | loadRow output s => do
    let out ← output.eval hash_range S
    LoadRow hash_range S s out
  | merge output field input => do
    let out ← output.eval hash_range S
    let inp ← input.eval hash_range S
    Merge hash_range field inp out

end CallTree

section Covered

variable {hash_range : StatMap δ → Fin (2 ^ 64)} {S : StatsSelect} {rows : List (Sample δ)}
  {Total : List (StatMap δ × AggRow δ) → StatMap δ × AggRow δ → Prop}

theorem loadRow_represents (hR : Regular hash_range S Total rows) {s : Sample δ} (hs : s ∈ rows)
    {m : MapBuf δ} {cs : List (StatMap δ × AggRow δ)} (h : Holds hash_range S Total m cs)
    (hcs : From hash_range S rows cs) :
    ∃ m', LoadRow hash_range S s m = some m' ∧
      Holds hash_range S Total m' (cs ++ [contribution hash_range S s]) := by
  rw [loadRow_eq hash_range S hR.status (hR.loadable s hs)]
  refine represents_mergeEntry hR.isTotal sameUniks_iff h (hR.single s hs) ?_
  intro c hc hkey
  obtain ⟨s', hs', rfl⟩ := hcs c hc
  exact hR.separated s' hs' s hs hkey

/-- What a multimap holds after any sequence of calls. -/
theorem callTree_represents (hR : Regular hash_range S Total rows) (c : CallTree δ)
    (hrows : ∀ s ∈ c.rows, s ∈ rows)
    (hfields : ∀ g ∈ c.fields, ∀ s ∈ rows, (buildUniks S s).find? g = none) :
    ∃ m, c.eval hash_range S = some m ∧
      Holds hash_range S Total m (c.rows.map (contribution hash_range S)) := by
  have hfrom : ∀ c : CallTree δ, (∀ s ∈ c.rows, s ∈ rows) →
      From hash_range S rows (c.rows.map (contribution hash_range S)) := by
    intro c hc x hx
    obtain ⟨s, hs, rfl⟩ := List.mem_map.mp hx
    exact ⟨s, hc s hs, rfl⟩
  induction c with
  | empty => exact ⟨.empty, rfl, represents_empty⟩
  | loadRow output s ih =>
    have hout : ∀ s' ∈ output.rows, s' ∈ rows := fun s' hs' => hrows s' (List.mem_append_left _ hs')
    obtain ⟨m, hm, hrep⟩ := ih hout hfields
    obtain ⟨m', hm', hrep'⟩ := loadRow_represents hR (hrows s (by simp [CallTree.rows])) hrep
      (hfrom output hout)
    refine ⟨m', by rw [CallTree.eval, hm]; exact hm', ?_⟩
    rw [CallTree.rows, List.map_append]
    exact hrep'
  | merge output field input ih ih' =>
    have hout : ∀ s' ∈ output.rows, s' ∈ rows := fun s' hs' => hrows s' (List.mem_append_left _ hs')
    have hin : ∀ s' ∈ input.rows, s' ∈ rows := fun s' hs' => hrows s' (List.mem_append_right _ hs')
    obtain ⟨m, hm, hrep⟩ := ih hout fun g hg =>
      hfields g (List.mem_append_left _ (List.mem_cons_of_mem _ hg))
    obtain ⟨inp, hinp, hrepIn⟩ := ih' hin fun g hg => hfields g (List.mem_append_right _ hg)
    obtain ⟨m', hm', hrep'⟩ := merge_represents hR
      (hfields field (List.mem_append_left _ List.mem_cons_self)) hrep hrepIn (hfrom output hout)
      (hfrom input hin)
    refine ⟨m', by rw [CallTree.eval, hm, hinp]; exact hm', ?_⟩
    rw [CallTree.rows, List.map_append]
    exact hrep'

/-- The rows of one group make one entry. -/
theorem single_entry (hT : IsTotal Prod.fst Prod.fst mergeAggs Total) {m : MapBuf δ}
    {cs : List (StatMap δ × AggRow δ)} (h : Holds hash_range S Total m cs) {u : StatMap δ}
    (hu : ∀ c ∈ cs, c.1 = u) (hne : cs ≠ []) :
    ∃ ukey a, m.entries = [(ukey, (u, a))] ∧ Total cs (u, a) := by
  have hgroup : ∀ e ∈ m.entries, e.2.1 = u := by
    intro e he
    obtain ⟨c, hc, hce⟩ := h.exists_contribution hT he
    rw [← hce]
    exact hu c hc
  have hnodup := h.keyed.nodup_groups
  obtain ⟨c, hc⟩ := List.exists_mem_of_ne_nil _ hne
  obtain ⟨e, he, -⟩ := h.covered c hc
  have hone : m.entries = [e] := by
    cases hes : m.entries with
    | nil => rw [hes] at he; cases he
    | cons e₁ es =>
      cases es with
      | nil =>
        rw [hes] at he
        rw [List.mem_singleton.mp he]
      | cons e₂ es =>
        rw [hes] at hnodup hgroup
        have h₁ : e₁.2.1 = e₂.2.1 := by rw [hgroup e₁ (by simp), hgroup e₂ (by simp)]
        simp [h₁] at hnodup
  have htotal := h.total e he
  rw [show (e.2).1 = u from hgroup e he, ofGroup_eq_self hu] at htotal
  obtain ⟨ukey, u', a⟩ := e
  obtain rfl : u' = u := hgroup _ he
  exact ⟨ukey, a, hone, htotal⟩

/-- The values of a column in the rows that carry it. -/
def carriedValues (f : String) (rows : List (Sample δ)) : List (Fin (2 ^ 64)) :=
  rows.filterMap fun s => (columnValue s.row f).bind asUInt64

/-- The multimap has one entry, of group `u`, and reports the total of the values
at `k`, or nothing when there are none. -/
def Reports (m : MapBuf δ) (u : StatMap δ) (k : AggKey) (vals : List (Fin (2 ^ 64))) : Prop :=
  ∃ ukey a, m.entries = [(ukey, (u, a))] ∧ (vals = [] → a.find? k = none) ∧
    (vals ≠ [] → ∃ n, a.find? k = some (.uint64 n) ∧ TotalOf k.oper n vals)

/-- If any row carries the column, every row with any aggregate does. -/
def CarriedByAll (S : StatsSelect) (f : String) (rows : List (Sample δ)) : Prop :=
  (∃ s ∈ rows, HasColumn s.row f) →
    ∀ s ∈ rows, (∃ k, Contributes S s.row k) → HasColumn s.row f

/-- The aggregate of `f` under `op` is selected. -/
structure Aggregated (S : StatsSelect) (op : AggOper) (f : String) : Prop where
  oper : op = .SUM ∨ op = .MAX ∨ op = .MIN
  selected : opCols S op f = true

theorem Aggregated.exact {S : StatsSelect} {op : AggOper} {f : String} (h : Aggregated S op f) :
    (aggkey op f).oper.exact = true := by
  rcases h.oper with rfl | rfl | rfl <;> rfl

section Aggregate

variable {op : AggOper} {f : String} (hagg : Aggregated S op f)
  (huint : ∀ s ∈ rows, UIntRow S s.row)
include hagg huint

omit [LinearOrder δ] in
theorem find?_isSome_iff_hasColumn {s : Sample δ} (hs : s ∈ rows) :
    ((contribution hash_range S s).2.find? (aggkey op f)).isSome = true ↔ HasColumn s.row f := by
  rw [contribution_find? hagg.oper hagg.selected (huint s hs), columnValue_isSome_iff]

omit [LinearOrder δ] in
theorem valuesAt_contributions :
    valuesAt (aggkey op f) (rows.map (contribution hash_range S)) = carriedValues f rows := by
  unfold valuesAt carriedValues
  rw [List.filterMap_map]
  refine List.filterMap_congr fun s hs => ?_
  show ((contribution hash_range S s).2.find? (aggkey op f)).bind asUInt64 = _
  rw [contribution_find? hagg.oper hagg.selected (huint s hs)]

omit [LinearOrder δ] [Numerics δ] in
theorem carriedValues_ne_nil_iff :
    carriedValues f rows ≠ [] ↔ ∃ s ∈ rows, HasColumn s.row f := by
  unfold carriedValues
  rw [ne_eq, List.filterMap_eq_nil_iff]
  push Not
  refine exists_congr fun s => and_congr_right fun hs => ?_
  constructor
  · intro h
    rw [← columnValue_isSome_iff]
    cases hvalue : columnValue s.row f with
    | none => rw [hvalue] at h; exact absurd rfl h
    | some v => rfl
  · intro hcol
    obtain ⟨v, hv⟩ := Option.isSome_iff_exists.mp (columnValue_isSome_iff.mpr hcol)
    obtain ⟨it, hit, rfl⟩ := Option.map_eq_some_iff.mp hv
    have hname : it.name = f := by simpa using List.find?_some hit
    obtain ⟨n, hn⟩ := huint s hs it (List.mem_of_find?_eq_some hit) op (hname ▸ hagg.selected)
    rw [hv, hn]
    exact Option.some_ne_none n

omit [LinearOrder δ] hagg in
/-- The row has aggregates. -/
theorem contribution_ne_empty_iff {s : Sample δ} (hs : s ∈ rows) :
    (contribution hash_range S s).2.isEmpty = false ↔ ∃ k, Contributes S s.row k := by
  obtain ⟨a, ha, -, hkeys⟩ := buildAggs_spec hash_range (buildUniks S s)
    (loadsAs_of_uintRow (huint s hs))
  unfold contribution
  rw [ha, Option.getD_some, ← Bool.not_eq_true, OrderedMap.isEmpty_iff]
  push Not
  exact exists_congr fun k => by rw [← hkeys k, Option.isSome_iff_ne_none]

/-- With the column in all rows that have aggregates, each row is a total of
itself, and the entry's aggregate is a total of the group's. -/
theorem regular_of_carriedByAll (hst : S.status_ = true) {u : StatMap δ}
    (hgroup : ∀ s ∈ rows, buildUniks S s = u) (hkey : (buildKey hash_range S u).isSome = true)
    (hall : CarriedByAll S f rows) :
    Regular hash_range S (AggregateOf (fun k => k = aggkey op f)
      (fun _ _ => ∃ s ∈ rows, HasColumn s.row f)) rows where
  status := hst
  loadable s hs := ⟨by rw [hgroup s hs]; exact hkey, (contribution_typed (huint s hs)).1⟩
  separated s hs s' hs' _ := (hgroup s hs).trans (hgroup s' hs').symm
  isTotal := aggregateOf_isTotal _ _
  single s hs := by
    refine aggregateOf_singleton ⟨(contribution_typed (huint s hs)).2, ?_⟩
    rintro hne k rfl
    rw [find?_isSome_iff_hasColumn hagg huint hs]
    exact ⟨fun hcol => ⟨s, hs, hcol⟩,
      fun hex => hall hex s hs ((contribution_ne_empty_iff huint hs).mp hne)⟩

theorem reports_of_carriedByAll (hst : S.status_ = true) {u : StatMap δ} (hne : rows ≠ [])
    (hgroup : ∀ s ∈ rows, buildUniks S s = u) (hkey : (buildKey hash_range S u).isSome = true)
    (hall : CarriedByAll S f rows) {c : CallTree δ} (hrows : c.rows.Perm rows)
    (hfields : ∀ g ∈ c.fields, u.find? g = none) :
    ∃ m, c.eval hash_range S = some m ∧ Reports m u (aggkey op f) (carriedValues f rows) := by
  have hR : Regular hash_range S _ rows :=
    regular_of_carriedByAll hagg huint hst hgroup hkey hall
  obtain ⟨m, hm, hrep⟩ := callTree_represents hR c (fun s hs => hrows.mem_iff.mp hs)
    (fun g hg s hs => by rw [hgroup s hs]; exact hfields g hg)
  have hperm : (c.rows.map (contribution hash_range S)).Perm (rows.map (contribution hash_range S)) :=
    hrows.map _
  have hcs : ∀ x ∈ c.rows.map (contribution hash_range S), x.1 = u := by
    intro x hx
    obtain ⟨s, hs, rfl⟩ := List.mem_map.mp hx
    exact hgroup s (hrows.mem_iff.mp hs)
  have hcsne : c.rows.map (contribution hash_range S) ≠ [] := by
    intro hnil
    have hlen := hrows.length_eq
    rw [List.map_eq_nil_iff.mp hnil] at hlen
    exact hne (List.length_eq_zero_iff.mp hlen.symm)
  obtain ⟨ukey, a, hentries, htotal⟩ := single_entry hR.isTotal hrep hcs hcsne
  refine ⟨m, hm, ukey, a, hentries, ?_, ?_⟩
  · intro hvals
    -- no row has the column, so the entry has no such key
    have hno : ¬ ∃ s ∈ rows, HasColumn s.row f := fun hex =>
      (carriedValues_ne_nil_iff hagg huint).mpr hex hvals
    by_cases hempty : a.isEmpty = true
    · exact OrderedMap.isEmpty_iff.mp hempty _
    · have hkeys := htotal.row.keys (Bool.eq_false_iff.mpr hempty) (aggkey op f) rfl
      rw [← Option.not_isSome_iff_eq_none, hkeys]
      exact hno
  · intro hvals
    obtain ⟨s, hs, hcol⟩ := (carriedValues_ne_nil_iff hagg huint).mp hvals
    have hsome : ((contribution hash_range S s).2.find? (aggkey op f)).isSome = true :=
      (find?_isSome_iff_hasColumn hagg huint hs).mpr hcol
    have hnotEmpty : a.isEmpty = false := by
      rw [Bool.eq_false_iff]
      intro hempty
      have hcontrib := htotal.isEmpty.mp hempty _
        (List.mem_map_of_mem (hrows.mem_iff.mpr hs))
      rw [OrderedMap.isEmpty_iff.mp hcontrib (aggkey op f)] at hsome
      cases hsome
    obtain ⟨v, hv⟩ := Option.isSome_iff_exists.mp
      ((htotal.row.keys hnotEmpty (aggkey op f) rfl).mpr ⟨s, hs, hcol⟩)
    obtain ⟨n, rfl⟩ := WellTyped.exists_uint64 hagg.exact (htotal.row.typed _ v hv)
    refine ⟨n, hv, ?_⟩
    have hvalues : (valuesAt (aggkey op f) (c.rows.map (contribution hash_range S))).Perm
        (carriedValues f rows) := by
      rw [← show valuesAt (aggkey op f) (rows.map (contribution hash_range S)) = carriedValues f rows
        from valuesAt_contributions hagg huint]
      exact hperm.filterMap _
    exact (htotal.total _ n rfl hagg.exact hv).perm hvalues

end Aggregate

/-- Rows loaded one after the other. -/
def CallTree.loads (rows : List (Sample δ)) : CallTree δ := rows.foldl .loadRow .empty

omit [LinearOrder δ] [Numerics δ] in
theorem CallTree.rows_loads (l : List (Sample δ)) : (CallTree.loads l).rows = l := by
  have hloop : ∀ (l : List (Sample δ)) (c : CallTree δ), (l.foldl .loadRow c).rows = c.rows ++ l := by
    intro l
    induction l with
    | nil => intro c; simp
    | cons s l ih => intro c; rw [List.foldl_cons, ih]; simp [CallTree.rows]
  exact hloop l .empty

omit [LinearOrder δ] [Numerics δ] in
theorem CallTree.fields_loads (l : List (Sample δ)) : (CallTree.loads l).fields = [] := by
  have hloop : ∀ (l : List (Sample δ)) (c : CallTree δ), (l.foldl .loadRow c).fields = c.fields := by
    intro l
    induction l with
    | nil => exact fun c => rfl
    | cons s l ih => intro c; rw [List.foldl_cons, ih]; rfl
  exact hloop l .empty

/-- For the rows of one group, each with any of the aggregated columns, every
order of loading and merging them reports the sum, maximum or minimum of a
column over all rows that carry it, exactly when the rows with aggregates all
carry the column or none does. -/
theorem aggregates_cover_iff (hst : S.status_ = true) {u : StatMap δ} (hne : rows ≠ [])
    (hgroup : ∀ s ∈ rows, buildUniks S s = u) (hkey : (buildKey hash_range S u).isSome = true)
    (huint : ∀ s ∈ rows, UIntRow S s.row) {op : AggOper} {f : String} (hagg : Aggregated S op f) :
    (∀ c : CallTree δ, c.rows.Perm rows → (∀ g ∈ c.fields, u.find? g = none) →
      ∃ m, c.eval hash_range S = some m ∧ Reports m u (aggkey op f) (carriedValues f rows)) ↔
      CarriedByAll S f rows := by
  constructor
  · intro h hex s hs hcontributes
    by_contra hcol
    -- a row with aggregates but without the column, loaded first
    obtain ⟨l₁, l₂, hsplit⟩ := List.append_of_mem hs
    have hperm : (s :: (l₁ ++ l₂)).Perm rows := by
      rw [hsplit]
      exact List.perm_middle.symm
    have hR : Regular hash_range S KeysOfFirst rows :=
      { status := hst
        loadable := fun s hs => ⟨by rw [hgroup s hs]; exact hkey, (contribution_typed (huint s hs)).1⟩
        separated := fun s hs s' hs' _ => (hgroup s hs).trans (hgroup s' hs').symm
        isTotal := keysOfFirst_isTotal
        single := fun s hs => keysOfFirst_singleton (contribution_typed (huint s hs)).2 }
    have hrows := CallTree.rows_loads (s :: (l₁ ++ l₂))
    have hfields := CallTree.fields_loads (s :: (l₁ ++ l₂))
    obtain ⟨m, hm, hrep⟩ := callTree_represents hR (CallTree.loads (s :: (l₁ ++ l₂)))
      (fun x hx => hperm.mem_iff.mp (hrows ▸ hx)) (fun g hg => by rw [hfields] at hg; cases hg)
    obtain ⟨m', hm', ukey, a, hentries, -, hreport⟩ := h (CallTree.loads (s :: (l₁ ++ l₂)))
      (by rw [hrows]; exact hperm) (fun g hg => by rw [hfields] at hg; cases hg)
    obtain rfl : m = m' := Option.some.inj (hm.symm.trans hm')
    obtain ⟨n, hn, -⟩ := hreport ((carriedValues_ne_nil_iff hagg huint).mpr hex)
    have hmine : (contribution hash_range S s).1 = u := hgroup s hs
    have hkeys := (hrep.total (ukey, (u, a)) (by rw [hentries]; exact List.mem_singleton_self _)).keys
      (contribution hash_range S s) (by
        rw [hrows, List.map_cons]
        unfold ofGroup
        rw [List.filter_cons_of_pos (by simp [hmine]),
          List.find?_cons_of_pos (by simpa using (contribution_ne_empty_iff huint hs).mpr hcontributes)])
      (aggkey op f)
    rw [find?_isSome_iff_hasColumn hagg huint hs, show (u, a).2.find? (aggkey op f) = _ from hn]
      at hkeys
    exact hcol (hkeys.mp rfl)
  · intro hall c hrows hfields
    exact reports_of_carriedByAll hagg huint hst hne hgroup hkey hall hrows hfields

end Covered

/-- A SELECT with two sums, and rows that carry both. -/
theorem aggregates_cover_sample :
    ∃ (S : StatsSelect) (m : MapBuf Nat) (u : StatMap Nat),
      build (fun _ => true) ["a", "SUM(x)", "SUM(y)"] [] = some S ∧
      (CallTree.merge (.loadRow .empty (numberRow [("a", 1), ("x", 1), ("y", 2)])) ""
        (.loadRow .empty (numberRow [("a", 1), ("x", 4), ("y", 3)]))).eval sampleHash S = some m ∧
      Reports m u (aggkey .SUM "y") [2, 3] := by
  obtain ⟨S, hS⟩ := Option.isSome_iff_exists.mp
    (show (build (fun _ => true) ["a", "SUM(x)", "SUM(y)"] []).isSome = true by decide)
  let r₁ := numberRow [("a", 1), ("x", 1), ("y", 2)]
  let r₂ := numberRow [("a", 1), ("x", 4), ("y", 3)]
  have hfacts : ((build (fun _ => true) ["a", "SUM(x)", "SUM(y)"] []).map fun S =>
      decide (S.status_ = true ∧ buildUniks S r₂ = buildUniks S r₁ ∧
        (buildKey sampleHash S (buildUniks S r₁)).isSome = true ∧ opCols S .SUM "y" = true ∧
        (buildUniks S r₁).find? "" = none)) = some true := by
    decide +kernel
  rw [hS] at hfacts
  obtain ⟨hst, hgroup, hkey, hsel, hblank⟩ := of_decide_eq_true (Option.some.inj hfacts)
  have hrows : ∀ s ∈ [r₁, r₂], buildUniks S s = buildUniks S r₁ ∧ UIntRow S s.row ∧
      HasColumn s.row "y" := by
    intro s hs
    simp only [List.mem_cons, List.not_mem_nil, or_false] at hs
    rcases hs with rfl | rfl
    · exact ⟨rfl, numberRow_uint S _, _, List.mem_cons_of_mem _ (List.mem_cons_of_mem _ List.mem_cons_self), rfl⟩
    · exact ⟨hgroup, numberRow_uint S _, _, List.mem_cons_of_mem _ (List.mem_cons_of_mem _ List.mem_cons_self), rfl⟩
  obtain ⟨m, hm, hreports⟩ := (aggregates_cover_iff hst (List.cons_ne_nil r₁ [r₂])
    (fun s hs => (hrows s hs).1) hkey (fun s hs => (hrows s hs).2.1) ⟨Or.inl rfl, hsel⟩).mpr
    (fun _ s hs _ => (hrows s hs).2.2)
    (.merge (.loadRow .empty r₁) "" (.loadRow .empty r₂)) (List.Perm.refl _)
    (fun g hg => by rw [List.mem_singleton.mp hg]; exact hblank)
  exact ⟨S, m, buildUniks S r₁, hS, hm, hreports⟩

/-- A row without `y` comes first: its entry has no SUM(y), and the row with `y`
adds nothing. -/
theorem first_row_drops_column :
    ∃ (S : StatsSelect) (m : MapBuf Nat),
      build (fun _ => true) ["a", "SUM(x)", "SUM(y)"] [] = some S ∧
      (CallTree.loads [numberRow [("a", 1), ("x", 1)], numberRow [("a", 1), ("x", 2), ("y", 3)]]).eval
        sampleHash S = some m ∧
      ¬ ∃ u, Reports m u (aggkey .SUM "y")
        (carriedValues "y" [numberRow [("a", 1), ("x", 1)], numberRow [("a", 1), ("x", 2), ("y", 3)]]) := by
  obtain ⟨S, hS⟩ := Option.isSome_iff_exists.mp
    (show (build (fun _ => true) ["a", "SUM(x)", "SUM(y)"] []).isSome = true by decide)
  let rows := [numberRow [("a", 1), ("x", 1)], numberRow [("a", 1), ("x", 2), ("y", 3)]]
  have hrun : ((build (fun _ => true) ["a", "SUM(x)", "SUM(y)"] []).bind fun S =>
      ((CallTree.loads rows).eval sampleHash S).map fun m =>
        m.entries.map fun e => decide (e.2.2.find? (aggkey .SUM "y") = none)) = some [true] := by
    decide +kernel
  rw [hS] at hrun
  obtain ⟨m, hm, hnone⟩ := Option.map_eq_some_iff.mp hrun
  refine ⟨S, m, hS, hm, ?_⟩
  rintro ⟨u, ukey, a, hentries, -, hreport⟩
  obtain ⟨n, hn, -⟩ := hreport (by decide +kernel)
  rw [hentries] at hnone
  have hnone : a.find? (aggkey .SUM "y") = none :=
    of_decide_eq_true (List.singleton_inj.mp hnone)
  rw [hnone] at hn
  cases hn

end TfAnalytics.QueryEngine.StatsSelect
